import ByteBricks.Proofs.Syntax.Proper
import ByteBricks.Proofs.Template.Rereading
import ByteBricks.Proofs.Template.Resolve

/-! # The Meaning of Texts

  Where a statement was compiled, its text has the same meaning but for the lines, and the
  scope behind it is the same. Only the trees that the text is read as matter, not those
  that the statement was compiled from. -/

namespace ByteBricks.Template

open Syntax (Node Origin Joined NamesWord)

/-! ### Statements without Lines -/

/-- The mark without its line. -/
def Mark.unlined (m : Mark) : Mark := ⟨m.id, 0⟩

/-- The expression without lines. -/
def Expr.unlined : Expr → Expr
  | .literal m value => .literal m.unlined value
  | .access m t field => .access m.unlined t field
  | .element m t baseMark field index => .element m.unlined t baseMark.unlined field index.unlined
  | .arith m t op lhs rhs => .arith m.unlined t op lhs.unlined rhs.unlined

/-- The declaration without lines. -/
def Declaration.unlined (d : Declaration) : Declaration :=
  ⟨d.mark.unlined, d.typeName, d.count.map Expr.unlined, d.name⟩

mutual

/-- The statement without lines. -/
def Statement.unlined : Statement → Statement
  | .struct m name members => .struct m.unlined name (members.map Declaration.unlined)
  | .field d => .field d.unlined
  | .block m body => .block m.unlined (Statement.unlinedAll body)
  | .expression e => .expression e.unlined
  | .scriptEnd m => .scriptEnd m.unlined

/-- The statements without lines. -/
def Statement.unlinedAll : List Statement → List Statement
  | [] => []
  | s :: rest => s.unlined :: Statement.unlinedAll rest

end

@[simp] theorem Expr.type_unlined (e : Expr) : e.unlined.type = e.type := by
  cases e <;> rfl

@[simp] theorem Expr.isConstant_unlined (e : Expr) : e.unlined.isConstant = e.isConstant := by
  induction e with
  | literal m value => rfl
  | access m t field => rfl
  | element m t baseMark field index ih => rfl
  | arith m t op lhs rhs ihl ihr => rw [unlined, isConstant, ihl, ihr, isConstant]

theorem Expr.type_of_unlined {e e' : Expr} (h : e'.unlined = e.unlined) : e'.type = e.type := by
  rw [← type_unlined, h, type_unlined]

theorem Expr.isConstant_of_unlined {e e' : Expr} (h : e'.unlined = e.unlined) :
    e'.isConstant = e.isConstant := by
  rw [← isConstant_unlined, h, isConstant_unlined]

namespace Resolve

/-! ### References -/

theorem mark_again {line line' : Nat} {m : Mark} {s s' : Scope} (h : mark line s = .ok (m, s')) :
    mark line' s = .ok (⟨m.id, line'⟩, s') := by
  cases h
  rfl

theorem intern_again {t t' : Token} {n : Name} {s s' : Scope} (h : intern t s = .ok (n, s'))
    (ht : t'.text = t.text) : intern t' s = .ok (n, s') := by
  unfold intern at h ⊢
  rw [ht]
  cases hstored : s.names.intern? t.text with
  | none => simp [hstored] at h
  | some p =>
    rw [hstored] at h
    exact h

/-- A reference has words for names if its tree is proper, and its text has its meaning. -/
theorem indexed_again {n : Node} {m : Mark} {a : Access} {b : Entry} {s s' : Scope}
    (h : indexed n s = .ok ((m, a, b), s')) :
    (n.Proper → a.Printable) ∧
      ∀ n', a.ReadAs n' → indexed n' s = .ok ((⟨m.id, n'.line⟩, a, b), s') := by
  unfold indexed at h
  split at h
  · next o =>
    obtain ⟨name, u, hb, hname, hm, rfl⟩ := fieldAccess_eq_ok_iff.1 h
    have htext := (intern_eq_ok hname).2.1
    constructor
    · intro hn
      rw [Node.Proper, NamesWord, ← htext] at hn
      exact hn
    · intro n' hn'
      cases hn' with
      | @field _ o' ho' =>
        have hsame := ho'.trans htext
        refine fieldAccess_eq_ok_iff.2 ⟨name, u, ?_, intern_again hname hsame, mark_again hm, rfl⟩
        rw [hsame]
        exact hb
  · next o lhs rhs =>
    obtain ⟨owner, part, p, struct, ownerName, u, partName, v, rfl, rfl, hp, hsingle, htype, hb,
      howner, hpart, hm, rfl⟩ := memberAccess_eq_ok_iff.1 h
    have hownerText := (intern_eq_ok howner).2.1
    have hpartText := (intern_eq_ok hpart).2.1
    constructor
    · intro hn
      rw [Node.Proper, Node.Proper, Node.Proper, NamesWord, NamesWord, ← hownerText,
        ← hpartText] at hn
      exact hn
    · intro n' hn'
      cases hn' with
      | @member _ _ o' owner' part' howner' hpart' =>
        have hsameOwner := howner'.trans hownerText
        have hsamePart := hpart'.trans hpartText
        refine memberAccess_eq_ok_iff.2 ⟨owner', part', p, struct, ownerName, u, partName, v, rfl,
          rfl, ?_, hsingle, htype, ?_, intern_again howner hsameOwner,
          intern_again hpart hsamePart, mark_again hm, rfl⟩
        · rw [hsameOwner]
          exact hp
        · rw [hsamePart]
          exact hb
  · simp at h

theorem arrayAccess_again {n : Node} {m : Mark} {a : Access} {t : Primitive} {s s' : Scope}
    (h : arrayAccess n s = .ok ((m, a, t), s')) :
    (n.Proper → a.Printable) ∧
      ∀ n', a.ReadAs n' → arrayAccess n' s = .ok ((⟨m.id, n'.line⟩, a, t), s') := by
  obtain ⟨b, haccess, harray, htype⟩ := arrayAccess_eq_ok_iff.1 h
  obtain ⟨hprintable, hagain⟩ := indexed_again haccess
  exact ⟨hprintable, fun n' hn' => arrayAccess_eq_ok_iff.2 ⟨b, hagain n' hn', harray, htype⟩⟩

/-! ### Expressions -/

/-- What is known of an expression that was read in front of a scope from trees that may be
    proper. -/
structure Rereads (proper : Prop) (s s' : Scope) (e : Expr) : Prop where
  printable : proper → e.Printable
  again : ∀ n, e.ReadAs n → ∃ e', expr n s = .ok (e', s') ∧ e'.unlined = e.unlined

/-- The value of a reference is read from the tree of the reference. -/
theorem expr_reference {a : Access} {n : Node} (h : a.ReadAs n) : expr n = (do
    let (m, field, b) ← indexed n
    pure (.access m (← scalarType n.line b) field)) := by
  cases h with
  | field => rw [expr]; rfl
  | member => rw [expr]; rfl

theorem access_rereads {n : Node} {line : Nat} {m : Mark} {a : Access} {b : Entry} {t : Primitive}
    {s s' s'' : Scope} (h : indexed n s = .ok ((m, a, b), s'))
    (ht : scalarType line b s' = .ok (t, s'')) : Rereads n.Proper s s'' (.access m t a) := by
  obtain ⟨hprintable, hagain⟩ := indexed_again h
  refine ⟨hprintable, fun n' hn' => ?_⟩
  cases hn' with
  | access hn' =>
    rw [expr_reference hn']
    refine ⟨.access ⟨m.id, n'.line⟩ t a, bind_eq_ok.2 ⟨_, _, hagain n' hn', ?_⟩, rfl⟩
    exact bind_eq_ok.2 ⟨t, s'', scalarType_eq_ok.2 (scalarType_eq_ok.1 ht), rfl⟩

/-- A literal is written with its value. -/
theorem integer_rereads {t : Token} {e : Expr} {s s' : Scope} (h : integer t s = .ok (e, s')) :
    Rereads True s s' e := by
  unfold integer at h
  simp only [bind_eq_ok, require_eq_ok, pure_eq_ok, and_assoc, exists_and_left,
    exists_eq_left] at h
  obtain ⟨value, hvalue, m, u, hm, rfl, rfl⟩ := h
  have hint := Word.toInt_of_int64? hvalue
  constructor
  case printable =>
    intro _
    show 0 ≤ value.toInt
    rw [hint]
    exact Int.natCast_nonneg _
  case again =>
    intro n hn
    cases hn with
    | @literal _ _ o ho =>
      -- The literal may have leading zeros, and its value is written without them.
      have hdigits : Nat.ofDigitChars 10 o.token.text.toList 0 =
          Nat.ofDigitChars 10 t.text.toList 0 := by
        rw [ho, hint]
        exact Token.ofDigitChars_toString _
      rw [expr, integer]
      simp only [bind_eq_ok, require_eq_ok, pure_eq_ok, and_assoc, exists_and_left,
        exists_eq_left]
      rw [hdigits]
      exact ⟨_, ⟨value, hvalue, _, _, mark_again hm, rfl, rfl⟩, rfl⟩

/-- An operation is read from the operator between its operands. -/
theorem expr_arith (o : Origin) (op : ArithOp) (l r : Node) :
    expr (.binary o op.binary l r) = (do let x ← expr l; let y ← expr r; arith o op x y) := by
  cases op <;> rw [ArithOp.binary, expr]

/-- The parentheses around the text of an operation have no meaning. -/
theorem arith_rereads {p q : Prop} {o : Origin} {op : ArithOp} {x y : Resolve Expr} {e : Expr}
    {s s' : Scope} (hx : ∀ l s t, x s = .ok (l, t) → Rereads p s t l)
    (hy : ∀ r s t, y s = .ok (r, t) → Rereads q s t r)
    (h : (do let l ← x; let r ← y; arith o op l r) s = .ok (e, s')) :
    Rereads (p ∧ q) s s' e := by
  unfold arith at h
  simp only [bind_eq_ok, pure_eq_ok] at h
  obtain ⟨l, t, hl, r, u, hr, m, v, hm, rfl, rfl⟩ := h
  have hl := hx l s t hl
  have hr := hy r t u hr
  refine ⟨fun h => ⟨hl.printable h.1, hr.printable h.2⟩, fun n hn => ?_⟩
  cases hn with
  | @arith _ _ _ _ _ o o' ln rn hln hrn =>
    obtain ⟨l', hl', hsameLeft⟩ := hl.again ln hln
    obtain ⟨r', hr', hsameRight⟩ := hr.again rn hrn
    rw [expr, single, expr_arith]
    refine ⟨.arith ⟨m.id, o'.token.line⟩ (resultType l.type r.type) op l' r', ?_, ?_⟩
    · refine bind_eq_ok.2 ⟨l', t, hl', bind_eq_ok.2 ⟨r', u, hr', ?_⟩⟩
      unfold arith
      rw [Expr.type_of_unlined hsameLeft, Expr.type_of_unlined hsameRight]
      exact bind_eq_ok.2 ⟨_, _, mark_again hm, rfl⟩
    · rw [Expr.unlined, hsameLeft, hsameRight]
      rfl

theorem element_rereads {p : Prop} {base : Node} {m m' : Mark} {a : Access} {t : Primitive}
    {i : Expr} {line : Nat} {s s₁ s₂ s₃ : Scope}
    (ha : arrayAccess base s = .ok ((m, a, t), s₁)) (hi : Rereads p s₁ s₂ i)
    (hint : i.type.isInteger = true) (hm : mark line s₂ = .ok (m', s₃)) :
    Rereads (base.Proper ∧ p) s s₃ (.element m' t m a i) := by
  obtain ⟨hprintable, hagain⟩ := arrayAccess_again ha
  refine ⟨fun h => ⟨hprintable h.1, hi.printable h.2⟩, fun n hn => ?_⟩
  cases hn with
  | @element _ _ _ _ _ o basen n hbase hn =>
    obtain ⟨i', hi', hsame⟩ := hi.again n hn
    rw [expr, single]
    simp only [bind_eq_ok, check_eq_ok, pure_eq_ok, and_assoc, exists_and_left, exists_eq_left]
    refine ⟨_, ⟨_, s₁, hagain basen hbase, i', s₂, hi', ?_, (), _, s₃, mark_again hm, rfl, rfl⟩, ?_⟩
    · rw [Expr.type_of_unlined hsame]
      exact hint
    · rw [Expr.unlined, hsame]
      rfl

mutual

/-- The text of an expression has its meaning. -/
theorem expr_rereads : ∀ {n : Node} {e : Expr} {s s' : Scope}, expr n s = .ok (e, s') →
    Rereads n.Proper s s' e
  | .name o, e, s, s', h => by
    rw [expr] at h
    simp only [bind_eq_ok, pure_eq_ok] at h
    obtain ⟨⟨m, a, b⟩, s₁, haccess, t, s₂, ht, rfl, rfl⟩ := h
    exact access_rereads (n := .name o) haccess ht
  | .integer o, e, s, s', h => by
    rw [Node.Proper]
    exact integer_rereads h
  | .control o word, e, s, s', h => by simp [expr] at h
  | .paren o inner, e, s, s', h => by
    -- Parentheses are no part of an expression, so they are not in its text.
    rw [Node.Proper]
    exact single_rereads h
  | .element o base index, e, s, s', h => by
    rw [expr] at h
    simp only [bind_eq_ok, check_eq_ok, pure_eq_ok, and_assoc, exists_and_left,
      exists_eq_left] at h
    obtain ⟨⟨m, a, t⟩, s₁, haccess, i, s₂, hi, hint, -, m', s₃, hm, rfl, rfl⟩ := h
    rw [Node.Proper]
    exact element_rereads haccess (single_rereads hi) hint hm
  | .binary o .member lhs rhs, e, s, s', h => by
    rw [expr] at h
    simp only [bind_eq_ok, pure_eq_ok] at h
    obtain ⟨⟨m, a, b⟩, s₁, haccess, t, s₂, ht, rfl, rfl⟩ := h
    exact access_rereads (n := .binary o .member lhs rhs) haccess ht
  | .binary o .assign lhs rhs, e, s, s', h => by simp [expr] at h
  | .binary o .compare lhs rhs, e, s, s', h => by simp [expr] at h
  | .binary o .plus lhs rhs, e, s, s', h | .binary o .minus lhs rhs, e, s, s', h
  | .binary o .times lhs rhs, e, s, s', h | .binary o .divide lhs rhs, e, s, s', h => by
    rw [expr] at h
    rw [Node.Proper]
    exact arith_rereads (fun _ _ _ => @expr_rereads lhs _ _ _)
      (fun _ _ _ => @expr_rereads rhs _ _ _) h
  | .structHead o _, e, s, s', h | .block o _, e, s, s', h | .scriptEnd o, e, s, s', h => by
    simp [expr] at h

theorem single_rereads : ∀ {line : Nat} {ns : List Node} {e : Expr} {s s' : Scope},
    single line ns s = .ok (e, s') → Rereads (Node.ProperAll ns) s s' e
  | line, [], e, s, s', h => by simp [single] at h
  | line, [n], e, s, s', h => by
    obtain ⟨hprintable, hagain⟩ := expr_rereads (n := n) h
    rw [Node.ProperAll, Node.ProperAll, and_true]
    exact ⟨hprintable, hagain⟩
  | line, n :: _ :: _, e, s, s', h => by simp [single] at h

end

/-! ### Declarations -/

/-- The trees of a declaration. -/
def declarationNodes (type : Origin) (bracket : Option (Origin × List Node)) (name : Origin) :
    List Node :=
  match bracket with
  | none => [.name type, .name name]
  | some (o, index) => [.element o (.name type) index, .name name]

theorem members_declarationNodes (type : Origin) (bracket : Option (Origin × List Node))
    (name : Origin) (rest : List Node) :
    members (declarationNodes type bracket name ++ rest) = (do
      let d ← declaration true type bracket name
      pure (d :: (← members rest))) := by
  cases bracket <;> rfl

theorem statements_declarationNodes (type : Origin) (bracket : Option (Origin × List Node))
    (name : Origin) (rest : List Node) :
    statements (declarationNodes type bracket name ++ rest) = (do
      let d ← declaration false type bracket name
      pure (.field d :: (← statements rest))) := by
  cases bracket with
  | none =>
    show statements (.name type :: .name name :: rest) = _
    rw [statements]
  | some p =>
    show statements (.element p.1 (.name type) p.2 :: .name name :: rest) = _
    rw [statements]

theorem count_rereads {inStruct : Bool} {o : Origin} {index : List Node} {e : Expr} {s s' : Scope}
    (h : count inStruct o index s = .ok (e, s')) :
    (Node.ProperAll index → e.Printable) ∧ ∀ n, e.ReadAs n → ∀ o',
      ∃ e', count inStruct o' [n] s = .ok (e', s') ∧ e'.unlined = e.unlined := by
  obtain ⟨he, hint, hconst⟩ := count_eq_ok_iff.1 h
  have he := single_rereads he
  refine ⟨he.printable, fun n hn o' => ?_⟩
  obtain ⟨e', he', hsame⟩ := he.again n hn
  refine ⟨e', count_eq_ok_iff.2 ⟨he', ?_, fun hin => ?_⟩, hsame⟩
  · rw [Expr.type_of_unlined hsame]
    exact hint
  · rw [Expr.isConstant_of_unlined hsame]
    exact hconst hin

theorem declare_again {inStruct : Bool} {line line' : Nat} {b : Entry} {u : Unit} {s s' : Scope}
    (h : declare inStruct line b s = .ok (u, s')) : declare inStruct line' b s = .ok (u, s') :=
  declare_eq_ok_iff.2 (declare_eq_ok_iff.1 h)

/-- Only the texts of a declaration and the meaning of its brackets matter. -/
theorem declaration_again {inStruct : Bool} {type type' name name' : Origin}
    {bracket bracket' : Option (Origin × List Node)} {d : Declaration} {s s' : Scope}
    (h : declaration inStruct type bracket name s = .ok (d, s'))
    (htype : type'.token.text = type.token.text) (hname : name'.token.text = name.token.text)
    (hbracket : ∀ size t, bracketCount inStruct bracket s = .ok (size, t) → ∃ size',
      bracketCount inStruct bracket' s = .ok (size', t) ∧
        size'.map Expr.unlined = size.map Expr.unlined) :
    ∃ d', declaration inStruct type' bracket' name' s = .ok (d', s') ∧ d'.unlined = d.unlined := by
  obtain ⟨t, size, s₁, typeName, s₂, fieldName, s₃, s₄, m, ht, hsize, htypeName, hfieldName,
    hdeclare, hm, rfl⟩ := declaration_eq_ok_iff.1 h
  obtain ⟨size', hsize', hsame⟩ := hbracket size s₁ hsize
  -- The entry only tells whether there is a count.
  have hisSome : size'.isSome = size.isSome := by
    rw [← Option.isSome_map, hsame, Option.isSome_map]
  refine ⟨⟨⟨m.id, type'.token.line⟩, typeName, size', fieldName⟩, declaration_eq_ok_iff.2
    ⟨t, size', s₁, typeName, s₂, fieldName, s₃, s₄, _, ?_, hsize', intern_again htypeName htype,
      intern_again hfieldName hname, ?_, mark_again hm, rfl⟩, ?_⟩
  · rw [htype]
    exact ht
  · rw [hname, hisSome]
    exact declare_again hdeclare
  · unfold Declaration.unlined
    rw [hsame]
    rfl

/-- What is known of a declaration that was read in front of a scope from trees that may be
    proper. -/
structure Redeclares (inStruct : Bool) (proper : Prop) (s s' : Scope) (d : Declaration) :
    Prop where
  printable : proper → d.Printable
  again : ∀ nodes, d.ReadAs nodes → ∃ type bracket name d',
    nodes = declarationNodes type bracket name ∧
      declaration inStruct type bracket name s = .ok (d', s') ∧ d'.unlined = d.unlined

theorem declaration_redeclares {inStruct : Bool} {type : Origin}
    {bracket : Option (Origin × List Node)} {name : Origin} {d : Declaration} {s s' : Scope}
    (h : declaration inStruct type bracket name s = .ok (d, s')) :
    Redeclares inStruct (Node.ProperAll (declarationNodes type bracket name)) s s' d := by
  obtain ⟨t, size, s₁, typeName, s₂, fieldName, s₃, s₄, m, -, hsize, htype, hname, -, -, rfl⟩ :=
    declaration_eq_ok_iff.1 h
  have htypeText := (intern_eq_ok htype).2.1
  have hnameText := (intern_eq_ok hname).2.1
  cases bracket with
  | none =>
    obtain ⟨rfl, rfl⟩ := pure_eq_ok.1 hsize
    constructor
    case printable =>
      intro hproper
      simp only [declarationNodes, Node.ProperAll, Node.Proper, NamesWord, and_true] at hproper
      rw [← htypeText, ← hnameText] at hproper
      exact ⟨hproper.1, hproper.2, by simp⟩
    case again =>
      intro nodes hnodes
      cases hnodes with
      | @single _ _ _ type' name' htype' hname' =>
        obtain ⟨d', hd', hsame⟩ := declaration_again h (htype'.trans htypeText)
          (hname'.trans hnameText) fun size t hsize => ⟨size, hsize, rfl⟩
        exact ⟨type', none, name', d', rfl, hd', hsame⟩
  | some p =>
    obtain ⟨o, index⟩ := p
    obtain ⟨e, t₁, he, hsize⟩ := bind_eq_ok.1 hsize
    obtain ⟨rfl, rfl⟩ := pure_eq_ok.1 hsize
    constructor
    case printable =>
      intro hproper
      simp only [declarationNodes, Node.ProperAll, Node.Proper, NamesWord, and_true] at hproper
      rw [← htypeText, ← hnameText] at hproper
      refine ⟨hproper.1.1, hproper.2, fun e' he' => ?_⟩
      cases he'
      exact (count_rereads he).1 hproper.1.2
    case again =>
      intro nodes hnodes
      cases hnodes with
      | @array _ _ _ _ o' type' name' n htype' hname' hn =>
        have hbracket : ∀ size t, bracketCount inStruct (some (o, index)) s = .ok (size, t) →
            ∃ size', bracketCount inStruct (some (o', [n])) s = .ok (size', t) ∧
              size'.map Expr.unlined = size.map Expr.unlined := by
          intro size t hsize
          obtain ⟨e₁, t₁, he₁, hsize⟩ := bind_eq_ok.1 hsize
          obtain ⟨rfl, rfl⟩ := pure_eq_ok.1 hsize
          rw [he] at he₁
          cases he₁
          obtain ⟨e', he', hsame⟩ := (count_rereads he).2 n hn o'
          exact ⟨some e', bind_eq_ok.2 ⟨e', _, he', rfl⟩, congrArg some hsame⟩
        obtain ⟨d', hd', hsame⟩ := declaration_again h (htype'.trans htypeText)
          (hname'.trans hnameText) hbracket
        exact ⟨type', some (o', [n]), name', d', rfl, hd', hsame⟩

/-- What is known of members that were read in front of a scope from the trees of a body. -/
structure RedeclaresAll (body : List Node) (s s' : Scope) (ds : List Declaration) : Prop where
  printable : Node.ProperAll body → ∀ d ∈ ds, d.Printable
  ne_nil : body ≠ [] → ds ≠ []
  again : ∀ nodes, Joined Declaration.ReadAs ds nodes → ∃ ds', members nodes s = .ok (ds', s') ∧
    ds'.map Declaration.unlined = ds.map Declaration.unlined

theorem RedeclaresAll.cons {type : Origin} {bracket : Option (Origin × List Node)} {name : Origin}
    {rest : List Node} {s t u : Scope} {d : Declaration} {ds : List Declaration}
    (h : declaration true type bracket name s = .ok (d, t)) (hs : RedeclaresAll rest t u ds) :
    RedeclaresAll (declarationNodes type bracket name ++ rest) s u (d :: ds) := by
  obtain ⟨hprintable, hagain⟩ := declaration_redeclares h
  refine ⟨fun hproper => ?_, by simp, fun nodes hnodes => ?_⟩
  · obtain ⟨hfirst, hrest⟩ := Node.properAll_append.1 hproper
    exact List.forall_mem_cons.2 ⟨hprintable hfirst, hs.printable hrest⟩
  · cases hnodes with
    | cons hfirst hothers =>
      obtain ⟨type', bracket', name', d', rfl, hd', hsame⟩ := hagain _ hfirst
      obtain ⟨ds', hds', hsames⟩ := hs.again _ hothers
      refine ⟨d' :: ds', ?_, by rw [List.map_cons, hsame, hsames, List.map_cons]⟩
      rw [members_declarationNodes]
      exact bind_eq_ok.2 ⟨d', t, hd', bind_eq_ok.2 ⟨ds', u, hds', rfl⟩⟩

theorem members_redeclares {body : List Node} {ds : List Declaration} {s s' : Scope}
    (h : members body s = .ok (ds, s')) : RedeclaresAll body s s' ds := by
  fun_induction members body generalizing ds s s' with
  | case1 =>
    obtain ⟨rfl, rfl⟩ := pure_eq_ok.1 h
    refine ⟨by simp, fun hne => absurd rfl hne, fun nodes hnodes => ?_⟩
    cases hnodes
    exact ⟨[], rfl, rfl⟩
  | case2 type name rest ih =>
    simp only [bind_eq_ok, pure_eq_ok] at h
    obtain ⟨d, t, hd, ds, u, hds, rfl, rfl⟩ := h
    exact .cons hd (ih hds)
  | case3 o type index name rest ih =>
    simp only [bind_eq_ok, pure_eq_ok] at h
    obtain ⟨d, t, hd, ds, u, hds, rfl, rfl⟩ := h
    exact .cons hd (ih hds)
  | case4 n rest => simp at h

/-- A struct has words for names if its trees are proper, and its text has its meaning. -/
theorem struct_again {o name : Origin} {body : List Node} {x : Statement} {s s' : Scope}
    (h : struct o name body s = .ok (x, s')) :
    (NamesWord name.token → body ≠ [] → Node.ProperAll body → x.Printable) ∧
      ∀ nodes, x.ReadAs nodes → ∃ o' name' o'' body' x',
        nodes = [.structHead o' name', .block o'' body'] ∧
          struct o' name' body' s = .ok (x', s') ∧ x'.unlined = x.unlined := by
  obtain ⟨ds, s₁, structName, s₂, m, s₃, hprimitive, hnew, hds, hname, hm, rfl, rfl⟩ :=
    struct_eq_ok_iff.1 h
  have htext := (intern_eq_ok hname).2.1
  have hmembers := members_redeclares hds
  constructor
  · intro hword hne hproper
    rw [NamesWord, ← htext] at hword
    rw [Statement.Printable]
    exact ⟨hword, hmembers.ne_nil hne, hmembers.printable hproper⟩
  · intro nodes hnodes
    cases hnodes with
    | @struct _ _ _ o' o'' name' body' hname' hbody' =>
      have hsame := hname'.trans htext
      obtain ⟨ds', hds', hsames⟩ := hmembers.again body' hbody'
      refine ⟨o', name', o'', body', .struct ⟨m.id, o'.token.line⟩ structName ds', rfl, ?_, ?_⟩
      · refine struct_eq_ok_iff.2 ⟨ds', s₁, structName, s₂, _, s₃, ?_, ?_, hds',
          intern_again hname hsame, mark_again hm, rfl, ?_⟩
        all_goals rw [hsame]
        · exact hprimitive
        · exact hnew
      · rw [Statement.unlined, Statement.unlined, hsames]
        rfl

end Resolve

end ByteBricks.Template
