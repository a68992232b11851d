import ByteBricks.Proofs.Template.Meaning

/-! # Statements Side by Side

  The trees of a block stand side by side, and a type in front of a name makes a
  declaration of both. So the texts of two statements are only kept apart if the first one
  is not read as a type, or the second one does not begin with a name. Where all texts are
  kept apart, they have the meaning of their statements one after the other. -/

namespace ByteBricks.Template

open Syntax (Node Origin Joined NamesWord)

/-! ### Apartness -/

/-- Whether the tree of the text could be the type of a declaration. -/
def Statement.isType : Statement → Bool
  | .expression (.access _ _ (.field _)) | .expression (.element _ _ _ (.field _) _) => true
  | _ => false

/-- Whether the first tree of the texts is a name. -/
def Statement.beginWithName : List Statement → Bool
  | .field d :: _ => d.count.isNone
  | .expression (.access _ _ (.field _)) :: _ => true
  | _ => false

mutual

/-- Whether the texts of the statements in each block are kept apart. -/
def Statement.isApart : Statement → Bool
  | .block _ body => Statement.areApart body
  | _ => true

/-- Whether the texts of the statements are kept apart when they stand side by side. -/
def Statement.areApart : List Statement → Bool
  | [] => true
  | x :: rest =>
    x.isApart && !(x.isType && Statement.beginWithName rest) && Statement.areApart rest

end

namespace Resolve

theorem beginsWithName_of_joined {xs : List Statement} {nodes : List Node}
    (h : Joined Statement.ReadAs xs nodes) : beginsWithName nodes = Statement.beginWithName xs := by
  cases h with
  | nil => rfl
  | cons first others =>
    cases first with
    | struct => rfl
    | field h => cases h <;> rfl
    | block => rfl
    | expression h =>
      cases h with
      | literal => rfl
      | access h => cases h <;> rfl
      | element h => rfl
      | arith => rfl

theorem beginsDeclaration_of_readAs {e : Expr} {n : Node} (h : e.ReadAs n) (rest : List Node) :
    beginsDeclaration n rest = ((Statement.expression e).isType && beginsWithName rest) := by
  cases h with
  | literal | arith => rfl
  | access h => cases h <;> rfl
  | element h => cases h <;> rfl

/-- The trees of a statement are resolved before those that it is kept apart from. -/
theorem statements_append {x : Statement} {nodes : List Node} (hx : x.ReadAs nodes) :
    ∃ first : Resolve Statement, ∀ rest, (x.isType && beginsWithName rest) = false →
      statements (nodes ++ rest) = (do let y ← first; pure (y :: (← statements rest))) := by
  cases hx with
  | @struct _ _ _ o o' name body =>
    refine ⟨struct o name body, fun rest _ => ?_⟩
    show statements (.structHead o name :: .block o' body :: rest) = _
    rw [statements]
  | @field d _ hd =>
    have hnodes : ∃ type bracket name, nodes = declarationNodes type bracket name := by
      cases hd with
      | @single _ _ _ type name => exact ⟨type, none, name, rfl⟩
      | @array _ _ _ _ o type name n => exact ⟨type, some (o, [n]), name, rfl⟩
    -- The name of the field stands behind its type, whatever follows it.
    obtain ⟨type, bracket, name, rfl⟩ := hnodes
    refine ⟨do pure (.field (← declaration false type bracket name)), fun rest _ => ?_⟩
    rw [statements_declarationNodes]
    simp
  | @block _ _ o body =>
    refine ⟨statement (.block o body), fun rest _ => ?_⟩
    exact statements_cons rfl
  | @expression e n he =>
    refine ⟨statement n, fun rest hapart => statements_cons ?_⟩
    rw [beginsDeclaration_of_readAs he]
    exact hapart

theorem statements_append_eq_ok {x : Statement} {nodes rest : List Node} (hx : x.ReadAs nodes)
    (hapart : (x.isType && beginsWithName rest) = false) {s u : Scope} {zs : List Statement} :
    statements (nodes ++ rest) s = .ok (zs, u) ↔ ∃ y t ys, statements nodes s = .ok ([y], t) ∧
      statements rest t = .ok (ys, u) ∧ zs = y :: ys := by
  obtain ⟨first, hfirst⟩ := statements_append hx
  have halone := hfirst [] (by simp [beginsWithName])
  rw [List.append_nil] at halone
  rw [hfirst rest hapart, halone]
  simp only [bind_eq_ok, pure_eq_ok, statements]
  constructor
  · intro h
    obtain ⟨y, t, hy, ys, u', hys, rfl, rfl⟩ := h
    exact ⟨y, t, ys, ⟨y, t, hy, [], t, ⟨rfl, rfl⟩, rfl, rfl⟩, hys, rfl⟩
  · intro h
    obtain ⟨y, t, ys, ⟨y', t', hy, _, _, ⟨rfl, rfl⟩, heq, rfl⟩, hys, rfl⟩ := h
    obtain ⟨rfl, -⟩ := List.cons.inj heq
    exact ⟨y, t, hy, ys, u, hys, rfl, rfl⟩

/-! ### Meaning of Statements -/

/-- What is known of a statement that was read in front of a scope from trees that may be
    proper. -/
structure Restates (proper : Prop) (s s' : Scope) (x : Statement) : Prop where
  printable : proper → x.Printable
  again : x.isApart = true → ∀ nodes, x.ReadAs nodes →
    ∃ x', statements nodes s = .ok ([x'], s') ∧ x'.unlined = x.unlined

/-- What is known of statements that were read in front of a scope, each of them in front of
    the scope that those before it lead to. -/
inductive RestatesAll (proper : Prop) : Scope → List Statement → Scope → Prop where
  /-- No statements lead to the same scope. -/
  | nil (s : Scope) : RestatesAll proper s [] s
  /-- The other statements are read behind the first one. -/
  | cons {s t u : Scope} {x : Statement} {xs : List Statement} (first : Restates proper s t x)
    (others : RestatesAll proper t xs u) : RestatesAll proper s (x :: xs) u

theorem Restates.mono {p q : Prop} {s t : Scope} {x : Statement} (h : Restates p s t x)
    (hpq : q → p) : Restates q s t x :=
  ⟨fun hq => h.printable (hpq hq), h.again⟩

theorem RestatesAll.mono {p q : Prop} {s t : Scope} {xs : List Statement}
    (h : RestatesAll p s xs t) (hpq : q → p) : RestatesAll q s xs t := by
  induction h with
  | nil s => exact .nil s
  | cons first others ih => exact .cons (first.mono hpq) ih

theorem RestatesAll.append {p : Prop} {s t u : Scope} {xs ys : List Statement}
    (hx : RestatesAll p s xs t) (hy : RestatesAll p t ys u) : RestatesAll p s (xs ++ ys) u := by
  induction hx with
  | nil s => exact hy
  | cons first others ih => exact .cons first (ih hy)

theorem RestatesAll.printable {p : Prop} {s t : Scope} {xs : List Statement}
    (h : RestatesAll p s xs t) (hp : p) : Statement.PrintableAll xs := by
  induction h with
  | nil s =>
    rw [Statement.PrintableAll]
    trivial
  | cons first others ih =>
    rw [Statement.PrintableAll]
    exact ⟨first.printable hp, ih⟩

/-- Side by side, texts that are kept apart have the meaning of their statements. -/
theorem RestatesAll.joined {p : Prop} {s t : Scope} {xs : List Statement}
    (h : RestatesAll p s xs t) (hapart : Statement.areApart xs = true) {nodes : List Node}
    (hnodes : Joined Statement.ReadAs xs nodes) : ∃ xs', statements nodes s = .ok (xs', t) ∧
      Statement.unlinedAll xs' = Statement.unlinedAll xs := by
  induction h generalizing nodes with
  | nil s =>
    cases hnodes
    exact ⟨[], by rw [statements]; rfl, rfl⟩
  | @cons s t u x xs first others ih =>
    cases hnodes with
    | @cons _ _ nodes rest hx hxs =>
      rw [Statement.areApart] at hapart
      simp only [Bool.and_eq_true, Bool.not_eq_true'] at hapart
      obtain ⟨⟨hapartFirst, hkept⟩, hapartOthers⟩ := hapart
      rw [← beginsWithName_of_joined hxs] at hkept
      obtain ⟨x', hx', hsame⟩ := first.again hapartFirst nodes hx
      obtain ⟨xs', hxs', hsames⟩ := ih hapartOthers hxs
      refine ⟨x' :: xs', (statements_append_eq_ok hx hkept).2 ⟨x', t, xs', hx', hxs', rfl⟩, ?_⟩
      rw [Statement.unlinedAll, hsame, hsames, Statement.unlinedAll]

/-- The statements that the step reads are known, and there is one if there is a tree. -/
def RestatesChain (ns : List Node) (r : Resolve (List Statement)) : Prop :=
  ∀ xs s s', r s = .ok (xs, s') →
    RestatesAll (Node.ProperAll ns) s xs s' ∧ (ns ≠ [] → xs ≠ [])

/-- A statement is read from the trees in front before those behind it. -/
theorem RestatesChain.cons {α : Type} (ns : List Node) {rest : List Node} {first : Resolve α}
    {f : α → Statement} {others : Resolve (List Statement)}
    (hfirst : ∀ a s s', first s = .ok (a, s') → Restates (Node.ProperAll ns) s s' (f a))
    (hothers : RestatesChain rest others) :
    RestatesChain (ns ++ rest) (do let a ← first; let xs ← others; pure (f a :: xs)) := by
  intro xs s s' h
  simp only [bind_eq_ok, pure_eq_ok] at h
  obtain ⟨a, t, ha, ys, u, hys, rfl, rfl⟩ := h
  have hrest := (hothers ys t _ hys).1
  refine ⟨.cons ((hfirst a s t ha).mono fun h => ?_) (hrest.mono fun h => ?_), by simp⟩
  · exact (Node.properAll_append.1 h).1
  · exact (Node.properAll_append.1 h).2

theorem field_restates {type : Origin} {bracket : Option (Origin × List Node)} {name : Origin}
    (d : Declaration) (s s' : Scope) (h : declaration false type bracket name s = .ok (d, s')) :
    Restates (Node.ProperAll (declarationNodes type bracket name)) s s' (.field d) := by
  obtain ⟨hprintable, hagain⟩ := declaration_redeclares h
  refine ⟨fun hproper => ?_, fun _ nodes hnodes => ?_⟩
  · rw [Statement.Printable]
    exact hprintable hproper
  · cases hnodes with
    | field hd =>
      obtain ⟨type', bracket', name', d', rfl, hd', hsame⟩ := hagain nodes hd
      refine ⟨.field d', ?_, congrArg Statement.field hsame⟩
      have happend := statements_declarationNodes type' bracket' name' []
      rw [List.append_nil] at happend
      rw [happend, statements]
      exact bind_eq_ok.2 ⟨d', s', hd', rfl⟩

theorem struct_restates {o name origin : Origin} {body : List Node} (x : Statement) (s s' : Scope)
    (h : struct o name body s = .ok (x, s')) :
    Restates (Node.ProperAll [.structHead o name, .block origin body]) s s' x := by
  obtain ⟨hprintable, hagain⟩ := struct_again h
  refine ⟨fun hproper => ?_, fun _ nodes hnodes => ?_⟩
  · simp only [Node.ProperAll, Node.Proper, and_true] at hproper
    exact hprintable hproper.1 hproper.2.1 hproper.2.2
  · obtain ⟨o', name', o'', body', x', rfl, hx', hsame⟩ := hagain nodes hnodes
    refine ⟨x', ?_, hsame⟩
    rw [statements, statements]
    exact bind_eq_ok.2 ⟨x', s', hx', rfl⟩

/-- The tree of an expression is a statement by itself. -/
theorem statements_expression {e : Expr} {n : Node} (h : e.ReadAs n) :
    statements [n] = (do let e ← expr n; pure [.expression e]) := by
  have hother : (∀ o name, n ≠ .structHead o name) ∧ (∀ o body, n ≠ .block o body) ∧
      ∀ o, n ≠ .scriptEnd o := by
    cases h with
    | access h => cases h <;> simp
    | literal | element | arith => simp
  have hbegins : beginsDeclaration n [] = false := by
    rw [beginsDeclaration_of_readAs h]
    simp [beginsWithName]
  rw [statements_cons hbegins, statement, statements]
  · simp
  · exact hother.1
  · exact hother.2.1
  · exact hother.2.2

/-- A chain of trees is read as statements whose texts have their meaning. -/
theorem statements_restate (ns : List Node) : RestatesChain ns (statements ns) := by
  -- A single statement and a chain are read by mutual recursion; there is a case for each branch.
  refine (statement.mutual_induct_unfolding
    (fun n r => ∀ x s s', r s = .ok (x, s') → Restates (Node.ProperAll [n]) s s' x)
    RestatesChain
    ?structHead ?block ?scriptEnd ?expression ?nil ?field ?array ?struct ?other).2 ns
  case structHead =>
    intro o name x s s' h
    simp at h
  case block =>
    intro o body ih x s s' h
    simp only [bind_eq_ok, pure_eq_ok] at h
    obtain ⟨inner, t, hinner, m, u, hm, rfl, rfl⟩ := h
    -- The statements inside are one chain, so they have to be kept apart.
    obtain ⟨hall, hne⟩ := ih inner s t hinner
    refine ⟨fun hproper => ?_, fun hapart nodes hnodes => ?_⟩
    · simp only [Node.ProperAll, Node.Proper, and_true] at hproper
      rw [Statement.Printable]
      exact ⟨hne hproper.1, hall.printable hproper.2⟩
    · rw [Statement.isApart] at hapart
      cases hnodes with
      | @block _ _ o' nodes hbody =>
        obtain ⟨inner', hinner', hsame⟩ := hall.joined hapart hbody
        refine ⟨.block ⟨m.id, o'.token.line⟩ inner', ?_, ?_⟩
        · rw [statements_cons rfl, statements, statement]
          simp only [bind_eq_ok, pure_eq_ok]
          exact ⟨_, _, ⟨inner', t, hinner', _, _, mark_again hm, rfl, rfl⟩, [], _, ⟨rfl, rfl⟩,
            rfl, rfl⟩
        · rw [Statement.unlined, hsame, Statement.unlined]
          rfl
  case scriptEnd =>
    intro o x s s' h
    simp only [bind_eq_ok, pure_eq_ok] at h
    obtain ⟨m, t, hm, rfl, rfl⟩ := h
    refine ⟨fun hproper => ?_, fun _ nodes hnodes => by cases hnodes⟩
    simp [Node.ProperAll, Node.Proper] at hproper
  case expression =>
    intro n _ _ _ x s s' h
    simp only [bind_eq_ok, pure_eq_ok] at h
    obtain ⟨e, t, he, rfl, rfl⟩ := h
    obtain ⟨hprintable, hagain⟩ := expr_rereads he
    refine ⟨fun hproper => ?_, fun _ nodes hnodes => ?_⟩
    · rw [Statement.Printable]
      rw [Node.ProperAll] at hproper
      exact hprintable hproper.1
    · cases hnodes with
      | @expression _ n' hn' =>
        obtain ⟨e', he', hsame⟩ := hagain n' hn'
        refine ⟨.expression e', ?_, congrArg Statement.expression hsame⟩
        rw [statements_expression hn']
        exact bind_eq_ok.2 ⟨e', _, he', rfl⟩
  case nil =>
    intro xs s s' h
    obtain ⟨rfl, rfl⟩ := pure_eq_ok.1 h
    exact ⟨.nil _, fun hne => absurd rfl hne⟩
  case field =>
    intro type name rest ih
    exact .cons (declarationNodes type none name) field_restates ih
  case array =>
    intro o type index name rest ih
    exact .cons (declarationNodes type (some (o, index)) name) field_restates ih
  case struct =>
    intro o name origin body rest ih
    exact .cons [.structHead o name, .block origin body] struct_restates ih
  case other =>
    intro n rest _ _ _ ihn ih
    exact .cons [n] ihn ih

end Resolve

end ByteBricks.Template
