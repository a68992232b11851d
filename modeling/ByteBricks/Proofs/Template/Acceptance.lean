import ByteBricks.Proofs.Template.Sequence
import ByteBricks.Proofs.Template.Statics

/-! # Which Scripts Are Accepted

  The statements of a script are laid out as clauses in the order of the source:
  declarations of fields, structs with their members, and trees that have to stand for
  a value. Blocks are transparent. A script is accepted if every clause is valid in
  what the clauses before it declare; nothing else is asked of it as long as there is
  room for its names. -/

namespace ByteBricks.Template

open Syntax (Node Origin Script)

/-! ### Clauses -/

/-- A declaration as it stands in a source. -/
structure FieldClause where
  /-- The name of its type. -/
  type : String
  /-- The trees in brackets behind the type. -/
  bracket : Option (List Node)
  /-- The declared name. -/
  name : String

/-- The declaration that is made by two names, the first of which may have an index. -/
def FieldClause.ofTrees (type : Origin) (bracket : Option (Origin × List Node)) (name : Origin) :
    FieldClause :=
  ⟨type.token.text, bracket.map Prod.snd, name.token.text⟩

/-- What the declaration makes known. -/
def FieldClause.entry (f : FieldClause) : Entry := ⟨f.name, .ofName f.type, f.bracket.isSome⟩

/-- A statement as it stands in a source. -/
inductive Clause where
  /-- Two names, the first of which may have an index, declare a field. -/
  | field (declaration : FieldClause)
  /-- The head of a struct with a block behind it. There are no members if the block does
      not consist of declarations. -/
  | struct (name : String) (members : Option (List FieldClause))
  /-- Any other tree. The head of a struct without a block is one of these. -/
  | value (tree : Node)

/-- The declarations in the body of a struct, if it consists of declarations. -/
def memberClauses? : List Node → Option (List FieldClause)
  | [] => some []
  | .name type :: .name name :: rest =>
    (memberClauses? rest).map (FieldClause.ofTrees type none name :: ·)
  | .element o (.name type) index :: .name name :: rest =>
    (memberClauses? rest).map (FieldClause.ofTrees type (some (o, index)) name :: ·)
  | _ :: _ => none

mutual

/-- The clauses of a tree that begins no declaration. -/
def clauses : Node → List Clause
  | .block _ body => clausesOf body
  | .scriptEnd _ => []
  | n => [.value n]

/-- The clauses of a chain. -/
def clausesOf : List Node → List Clause
  | [] => []
  | .name type :: .name name :: rest => .field (.ofTrees type none name) :: clausesOf rest
  | .element o (.name type) index :: .name name :: rest =>
    .field (.ofTrees type (some (o, index)) name) :: clausesOf rest
  | .structHead _ name :: .block _ body :: rest =>
    .struct name.token.text (memberClauses? body) :: clausesOf rest
  | n :: rest => clauses n ++ clausesOf rest

end

theorem clausesOf_cons {n : Node} {rest : List Node}
    (h : Resolve.beginsDeclaration n rest = false) :
    clausesOf (n :: rest) = clauses n ++ clausesOf rest := by
  rw [clausesOf]
  all_goals
    intros
    subst_vars
    simp [Resolve.beginsDeclaration, Resolve.beginsWithName, Resolve.beginsWithBlock] at h

/-! ### Valid Clauses -/

/-- The type is known, and a single integer stands in the brackets. -/
def FieldClause.Valid (Γ : Context) (f : FieldClause) : Prop :=
  Γ.Knows (.ofName f.type) ∧ ∀ index, f.bracket = some index →
    ∃ n t, index = [n] ∧ Denotes Γ n t ∧ t.isInteger = true

/-- The brackets hold nothing that depends on data. -/
def FieldClause.Constant (f : FieldClause) : Prop :=
  ∀ index, f.bracket = some index → ∀ n ∈ index, IsConstant n

/-- The members have valid types and constant counts, and their names differ. -/
def MembersValid (Γ : Context) (members : List FieldClause) : Prop :=
  (∀ f ∈ members, f.Valid Γ ∧ f.Constant) ∧ (members.map (·.name)).Nodup

/-- A field has a valid type, a struct has a name of its own and valid members, and what is
    left stands for a number. -/
def Clause.Valid (Γ : Context) : Clause → Prop
  | .field f => f.Valid Γ
  | .struct name members => Primitive.ofName? name = none ∧ Γ.struct? name = none ∧
      ∃ fs, members = some fs ∧ MembersValid Γ fs
  | .value n => ∃ t, Denotes Γ n t

namespace Context

/-- What is known behind a clause. -/
def afterClause (Γ : Context) : Clause → Context
  | .field f => { Γ with fields := f.entry :: Γ.fields }
  | .struct name members =>
    { Γ with structs := ⟨name, ((members.getD []).map FieldClause.entry).reverse⟩ :: Γ.structs }
  | .value _ => Γ

/-- What is known behind some clauses. -/
def afterClauses (Γ : Context) (cs : List Clause) : Context := cs.foldl afterClause Γ

/-- Each clause is valid behind those before it. -/
def Admits : Context → List Clause → Prop
  | _, [] => True
  | Γ, c :: rest => c.Valid Γ ∧ (Γ.afterClause c).Admits rest

theorem afterClauses_append (Γ : Context) (a b : List Clause) :
    Γ.afterClauses (a ++ b) = (Γ.afterClauses a).afterClauses b :=
  List.foldl_append

theorem admits_append {Γ : Context} {a b : List Clause} :
    Γ.Admits (a ++ b) ↔ Γ.Admits a ∧ (Γ.afterClauses a).Admits b := by
  induction a generalizing Γ with
  | nil => simp [Admits, afterClauses]
  | cons c a ih => rw [List.cons_append, Admits, ih, Admits, and_assoc]; rfl

theorem admits_iff {Γ : Context} {cs : List Clause} :
    Γ.Admits cs ↔ ∀ before c rest, cs = before ++ c :: rest → c.Valid (Γ.afterClauses before) := by
  constructor
  · intro h before c rest hcs
    rw [hcs, admits_append] at h
    exact h.2.1
  · intro h
    induction cs generalizing Γ with
    | nil => trivial
    | cons c cs ih =>
      refine ⟨h [] c cs rfl, ih fun before c' rest hcs => ?_⟩
      exact h (c :: before) c' rest (congrArg (c :: ·) hcs)

end Context

/-- Where no count depends on data, only the structs in front matter. -/
theorem FieldClause.Valid.of_constant {Γ Δ : Context} {f : FieldClause} (h : f.Valid Γ)
    (hf : f.Constant) (hstructs : Δ.structs = Γ.structs) : f.Valid Δ := by
  constructor
  · have hknows := h.1
    unfold Context.Knows Context.struct? at *
    rw [hstructs]
    exact hknows
  · intro index hindex
    obtain ⟨n, t, rfl, hn, hint⟩ := h.2 index hindex
    exact ⟨n, t, rfl, hn.of_isConstant (hf _ hindex n List.mem_cons_self), hint⟩

namespace Resolve

/-! ### Declarations -/

theorem type?_of_knows {s : Scope} {name : String} (h : s.context.Knows (.ofName name)) :
    s.type? name = some (.ofName name) := by
  unfold Scope.type?
  unfold ElementType.ofName at *
  cases hname : Primitive.ofName? name with
  | some t => rfl
  | none =>
    rw [hname] at h
    obtain ⟨declared, hdeclared⟩ := h
    have hstruct : s.struct? name = some declared := hdeclared
    simp [hstruct]

/-- A declaration that is resolved is valid. -/
theorem valid_of_declaration {inStruct : Bool} {type : Origin}
    {bracket : Option (Origin × List Node)} {name : Origin} {d : Declaration} {s s' : Scope}
    (h : declaration inStruct type bracket name s = .ok (d, s')) :
    (FieldClause.ofTrees type bracket name).Valid s.context ∧
      (inStruct = true → (FieldClause.ofTrees type bracket name).Constant) ∧
      d.entry = (FieldClause.ofTrees type bracket name).entry := by
  obtain ⟨t, size, s₁, typeName, s₂, fieldName, s₃, s₄, m, ht, hsize, htype, hname, -, -, rfl⟩ :=
    declaration_eq_ok_iff.1 h
  obtain ⟨-, hknows⟩ := type?_eq_some ht
  have hentry : (⟨m, typeName, size, fieldName⟩ : Declaration).entry =
      ⟨name.token.text, .ofName type.token.text, size.isSome⟩ := by
    rw [Declaration.entry, (intern_eq_ok htype).2.1, (intern_eq_ok hname).2.1]
  rw [hentry]
  cases bracket with
  | none =>
    obtain ⟨rfl, -⟩ := pure_eq_ok.1 hsize
    exact ⟨⟨hknows, by simp [FieldClause.ofTrees]⟩, by simp [FieldClause.Constant,
      FieldClause.ofTrees], rfl⟩
  | some p =>
    simp only [bracketCount, bind_eq_ok, pure_eq_ok] at hsize
    obtain ⟨e, u, he, rfl, -⟩ := hsize
    obtain ⟨hsingle, hint, hconst⟩ := count_eq_ok_iff.1 he
    obtain ⟨n, hn, hexpr⟩ := single_eq_ok_iff.1 hsingle
    have hdescribes := describes_of_expr hexpr
    refine ⟨⟨hknows, fun index hindex => ?_⟩, fun hin index hindex n' hn' => ?_, rfl⟩
    · obtain rfl : p.2 = index := Option.some.inj hindex
      exact ⟨n, e.type, hn, hdescribes.denotes, hint⟩
    · obtain rfl : p.2 = index := Option.some.inj hindex
      rw [hn, List.mem_singleton] at hn'
      rw [hn']
      exact hdescribes.constant.1 (hconst hin)

/-- A valid declaration is resolved. A member has to be constant and new, too. -/
theorem declaration_isOk {inStruct : Bool} {type : Origin}
    {bracket : Option (Origin × List Node)} {name : Origin} {s : Scope}
    (hvalid : (FieldClause.ofTrees type bracket name).Valid s.context)
    (hmember : inStruct = true → (FieldClause.ofTrees type bracket name).Constant ∧
      ∀ m ∈ s.members, m.name ≠ name.token.text)
    (hroom : s.HasRoom (bracketCost bracket + (nameCost type.token + nameCost name.token))) :
    ∃ d s', declaration inStruct type bracket name s = .ok (d, s') := by
  obtain ⟨hknows, hindex⟩ := hvalid
  have hbracket : ∃ size s₁, bracketCount inStruct bracket s = .ok (size, s₁) := by
    cases bracket with
    | none => exact ⟨none, s, rfl⟩
    | some p =>
      obtain ⟨n, t, hn, hdenotes, hint⟩ := hindex p.2 rfl
      have hcost : bracketCost (some p) = n.weight nameCost := by
        rw [bracketCost, hn, Node.weightAll, Node.weightAll, Nat.add_zero]
      rw [hcost] at hroom
      obtain ⟨e, s₁, he, rfl⟩ := expr_of_denotes hdenotes rfl hroom.left
      have hconst : inStruct = true → e.isConstant = true := by
        intro hin
        refine (describes_of_expr he).constant.2 ((hmember hin).1 p.2 rfl n ?_)
        rw [hn]
        exact List.mem_singleton_self n
      refine ⟨some e, s₁, bind_eq_ok.2 ⟨e, s₁, ?_, rfl⟩⟩
      exact count_eq_ok_iff.2 ⟨single_eq_ok_iff.2 ⟨n, hn, he⟩, hint, hconst⟩
  obtain ⟨size, s₁, hsize⟩ := hbracket
  have hgrows := (bracketCount_eq_ok hsize).1
  have hroom := hroom.after (spends_bracketCount inStruct bracket) hsize
  obtain ⟨typeName, s₂, htype⟩ := intern_isOk hroom.left
  obtain ⟨fieldName, s₃, hname⟩ := intern_isOk (hroom.after (.intern type.token) htype)
  have hmembers : s₃.members = s.members :=
    ((hgrows.trans (intern_eq_ok htype).1).trans (intern_eq_ok hname).1).members
  have hdeclare : ∃ s₄, declare inStruct name.token.line
      ⟨name.token.text, .ofName type.token.text, size.isSome⟩ s₃ = .ok ((), s₄) := by
    cases inStruct with
    | true =>
      refine ⟨_, declare_eq_ok_iff.2 (.inl ⟨rfl, ?_, rfl⟩)⟩
      rw [hmembers]
      exact (hmember rfl).2
    | false => exact ⟨_, declare_eq_ok_iff.2 (.inr ⟨rfl, rfl⟩)⟩
  obtain ⟨s₄, hdeclare⟩ := hdeclare
  obtain ⟨m, s', hm⟩ := mark_isOk type.token.line s₄
  exact ⟨_, s', declaration_eq_ok_iff.2 ⟨.ofName type.token.text, size, s₁, typeName, s₂, fieldName,
    s₃, s₄, m, type?_of_knows hknows, hsize, htype, hname, hdeclare, hm, rfl⟩⟩

/-! ### Structs -/

/-- What resolved members tell of the trees of a struct. Their counts are constant, so they
    are valid whatever fields there are. -/
structure MembersRead (s : Scope) (fs : List FieldClause) (ds : List Declaration) : Prop where
  valid : ∀ f ∈ fs, f.Constant ∧ ∀ Γ : Context, Γ.structs = s.structs → f.Valid Γ
  entries : ds.map Declaration.entry = fs.map FieldClause.entry

theorem MembersRead.cons {type : Origin} {bracket : Option (Origin × List Node)} {name : Origin}
    {d : Declaration} {ds : List Declaration} {fs : List FieldClause} {s t : Scope}
    (hd : declaration true type bracket name s = .ok (d, t)) (h : MembersRead t fs ds) :
    MembersRead s (.ofTrees type bracket name :: fs) (d :: ds) := by
  obtain ⟨hvalid, hconst, hentry⟩ := valid_of_declaration hd
  have hstructs := (declaration_eq_ok hd).adds.structs
  constructor
  · intro f hf
    rcases List.mem_cons.1 hf with rfl | hf
    · exact ⟨hconst rfl, fun Γ hΓ => hvalid.of_constant (hconst rfl) hΓ⟩
    · obtain ⟨hconst', hvalid'⟩ := h.valid f hf
      exact ⟨hconst', fun Γ hΓ => hvalid' Γ (hΓ.trans hstructs.symm)⟩
  · rw [List.map_cons, List.map_cons, hentry, h.entries]

/-- The body of a struct that is resolved consists of declarations. -/
theorem read_of_members {body : List Node} {ds : List Declaration} {s s' : Scope}
    (h : members body s = .ok (ds, s')) :
    ∃ fs, memberClauses? body = some fs ∧ MembersRead s fs ds := by
  fun_induction members body generalizing ds s s' with
  | case1 =>
    obtain ⟨rfl, -⟩ := pure_eq_ok.1 h
    exact ⟨[], rfl, by simp, rfl⟩
  | case2 type name rest ih =>
    simp only [bind_eq_ok, pure_eq_ok] at h
    obtain ⟨d, t, hd, ds, u, hds, rfl, -⟩ := h
    obtain ⟨fs, hfs, hread⟩ := ih hds
    exact ⟨_, by rw [memberClauses?, hfs]; rfl, .cons hd hread⟩
  | case3 o type index name rest ih =>
    simp only [bind_eq_ok, pure_eq_ok] at h
    obtain ⟨d, t, hd, ds, u, hds, rfl, -⟩ := h
    obtain ⟨fs, hfs, hread⟩ := ih hds
    exact ⟨_, by rw [memberClauses?, hfs]; rfl, .cons hd hread⟩
  | case4 n rest => simp at h

/-- The members behind some that are declared already. -/
structure MembersNew (s : Scope) (fs : List FieldClause) : Prop where
  valid : MembersValid s.context fs
  fresh : ∀ f ∈ fs, ∀ m ∈ s.members, m.name ≠ f.name

/-- The first one of new members is resolved, and those behind it stay new. -/
theorem MembersNew.step {type : Origin} (bracket : Option (Origin × List Node)) {name : Origin}
    {fs : List FieldClause} {s : Scope} (rest : Nat)
    (h : MembersNew s (.ofTrees type bracket name :: fs))
    (hroom : s.HasRoom (bracketCost bracket + (nameCost type.token + nameCost name.token) + rest)) :
    ∃ d t, declaration true type bracket name s = .ok (d, t) ∧ MembersNew t fs ∧
      t.HasRoom rest := by
  obtain ⟨⟨hall, hnames⟩, hfresh⟩ := h
  obtain ⟨hvalid, hconst⟩ := hall _ List.mem_cons_self
  obtain ⟨d, t, hd⟩ := declaration_isOk hvalid
    (fun (_ : true = true) => ⟨hconst, hfresh _ List.mem_cons_self⟩) hroom.left
  have hadds := (declaration_eq_ok hd).adds
  obtain ⟨hmembers, -, -⟩ := hadds.member rfl
  obtain ⟨-, -, hentry⟩ := valid_of_declaration hd
  refine ⟨d, t, hd, ⟨⟨fun f hf => ?_, hnames.of_cons⟩, fun f hf m hm => ?_⟩,
    hroom.after (spends_declaration true type bracket name) hd⟩
  · obtain ⟨hvalid', hconst'⟩ := hall f (List.mem_cons_of_mem _ hf)
    exact ⟨hvalid'.of_constant hconst' hadds.structs, hconst'⟩
  · rw [hmembers, List.mem_cons] at hm
    rcases hm with rfl | hm
    · intro heq
      rw [hentry] at heq
      refine (List.nodup_cons.1 hnames).1 (List.mem_map.2 ⟨f, hf, heq.symm⟩)
    · exact hfresh f (List.mem_cons_of_mem _ hf) m hm

theorem members_isOk {body : List Node} {fs : List FieldClause} {s : Scope}
    (hfs : memberClauses? body = some fs) (h : MembersNew s fs)
    (hroom : s.HasRoom (Node.weightAll nameCost body)) : ∃ ds t, members body s = .ok (ds, t) := by
  fun_induction memberClauses? body generalizing fs s with
  | case1 => exact ⟨[], s, rfl⟩
  | case2 type name rest ih =>
    obtain ⟨fs', hfs', rfl⟩ := Option.map_eq_some_iff.1 hfs
    obtain ⟨d, t, hd, hnew, hroom⟩ := h.step none (Node.weightAll nameCost rest)
      (hroom.mono (by simp only [Node.weightAll, Node.weight, bracketCost]; omega))
    obtain ⟨ds, u, hds⟩ := ih hfs' hnew hroom
    exact ⟨d :: ds, u, bind_eq_ok.2 ⟨d, t, hd, bind_eq_ok.2 ⟨ds, u, hds, rfl⟩⟩⟩
  | case3 o type index name rest ih =>
    obtain ⟨fs', hfs', rfl⟩ := Option.map_eq_some_iff.1 hfs
    obtain ⟨d, t, hd, hnew, hroom⟩ := h.step (some (o, index))
      (Node.weightAll nameCost rest)
      (hroom.mono (by simp only [Node.weightAll, Node.weight, bracketCost]; omega))
    obtain ⟨ds, u, hds⟩ := ih hfs' hnew hroom
    exact ⟨d :: ds, u, bind_eq_ok.2 ⟨d, t, hd, bind_eq_ok.2 ⟨ds, u, hds, rfl⟩⟩⟩
  | case4 n rest => simp at hfs

/-! ### Statements -/

/-- Outside of structs, the clauses decide whether the step succeeds and tell what is known
    behind it. -/
structure Decides {α : Type} (bytes : Nat) (cs : List Clause) (r : Resolve α) : Prop where
  sound : ∀ a s t, s.members = [] → r s = .ok (a, t) →
    s.context.Admits cs ∧ t.context = s.context.afterClauses cs ∧ t.members = []
  complete : ∀ s, s.members = [] → s.HasRoom bytes → s.context.Admits cs → ∃ a t, r s = .ok (a, t)
  spends : Spends bytes r

namespace Decides

variable {α β : Type} {k l : Nat} {cs cs' : List Clause}

theorem pure {a : α} : Decides 0 [] (Pure.pure a : Resolve α) where
  sound := by
    intro b s t hs h
    obtain ⟨-, rfl⟩ := pure_eq_ok.1 h
    exact ⟨trivial, rfl, hs⟩
  complete := fun s _ _ _ => ⟨a, s, rfl⟩
  spends := .pure

theorem mark (line : Nat) : Decides 0 [] (Resolve.mark line) where
  sound := by
    intro m s t hs h
    obtain ⟨hg, -⟩ := mark_eq_ok h
    exact ⟨trivial, hg.context, hg.members.trans hs⟩
  complete := fun s _ _ _ => mark_isOk line s
  spends := fun m s t h => Nat.le_of_eq (congrArg NameTable.size (names_mark h))

/-- What is decided one after the other is decided together. -/
theorem bind {r : Resolve α} {f : α → Resolve β} (hr : Decides k cs r)
    (hf : ∀ a, Decides l cs' (f a)) : Decides (k + l) (cs ++ cs') (r >>= f) where
  sound := by
    intro b s u hs h
    obtain ⟨a, t, ha, hb⟩ := bind_eq_ok.1 h
    obtain ⟨hfirst, hcontext, ht⟩ := hr.sound a s t hs ha
    obtain ⟨hrest, hcontext', hu⟩ := (hf a).sound b t u ht hb
    rw [hcontext] at hrest hcontext'
    exact ⟨Context.admits_append.2 ⟨hfirst, hrest⟩, by rw [hcontext', Context.afterClauses_append],
      hu⟩
  complete := by
    intro s hs hroom h
    obtain ⟨hfirst, hrest⟩ := Context.admits_append.1 h
    obtain ⟨a, t, ha⟩ := hr.complete s hs hroom.left hfirst
    obtain ⟨-, hcontext, ht⟩ := hr.sound a s t hs ha
    rw [← hcontext] at hrest
    obtain ⟨b, u, hb⟩ := (hf a).complete t ht (hroom.after hr.spends ha) hrest
    exact ⟨b, u, bind_eq_ok.2 ⟨a, t, ha, hb⟩⟩
  spends := hr.spends.bind fun a => (hf a).spends

theorem mono {r : Resolve α} (h : Decides k cs r) (hkl : k ≤ l) : Decides l cs r where
  sound := h.sound
  complete := fun s hs hroom => h.complete s hs (hroom.mono hkl)
  spends := h.spends.mono hkl

theorem map {r : Resolve α} {f : α → β} (hr : Decides k cs r) :
    Decides k cs (do let a ← r; Pure.pure (f a)) := by
  have h := hr.bind (f := fun a => Pure.pure (f a)) fun a => pure
  rwa [Nat.add_zero, List.append_nil] at h

/-- A statement is decided before those behind it. -/
theorem cons {r : Resolve α} {rest : Resolve (List Statement)} {f : α → Statement}
    (hr : Decides k cs r) (hrest : Decides l cs' rest) :
    Decides (k + l) (cs ++ cs') (do let a ← r; let xs ← rest; Pure.pure (f a :: xs)) :=
  hr.bind fun _ => hrest.map

/-- The head of a struct is nothing by itself. -/
theorem structHead (o name : Origin) (line : Nat) (fault : Fault) :
    Decides k [.value (.structHead o name)] (Resolve.fail line fault : Resolve α) where
  sound := by
    intro a s t hs h
    simp at h
  complete := by
    intro s hs hroom h
    obtain ⟨⟨t, ht⟩, -⟩ := h
    cases ht with
    | scalar field => cases field
  spends := .fail

theorem expression (n : Node) : Decides (n.weight nameCost) [.value n] (expr n) where
  sound := by
    intro e s t hs h
    obtain ⟨hg, -, -⟩ := expr_eq_ok h
    exact ⟨⟨⟨e.type, (describes_of_expr h).denotes⟩, trivial⟩, hg.context, hg.members.trans hs⟩
  complete := by
    intro s hs hroom h
    obtain ⟨⟨t, ht⟩, -⟩ := h
    obtain ⟨e, s', he, -⟩ := expr_of_denotes ht rfl hroom
    exact ⟨e, s', he⟩
  spends := spends_expr n

theorem field (type : Origin) (bracket : Option (Origin × List Node)) (name : Origin) :
    Decides (bracketCost bracket + (nameCost type.token + nameCost name.token))
      [.field (.ofTrees type bracket name)] (declaration false type bracket name) where
  sound := by
    intro d s t hs h
    obtain ⟨hvalid, -, hentry⟩ := valid_of_declaration h
    have hread := declaration_reads d s t hs h
    refine ⟨⟨hvalid, trivial⟩, ?_, hread.members⟩
    rw [hread.context]
    show (⟨s.context.structs, d.entry :: s.context.fields⟩ : Context) = _
    rw [hentry]
    rfl
  complete := by
    intro s hs hroom h
    exact declaration_isOk h.1 (fun h => nomatch h) hroom
  spends := spends_declaration false type bracket name

theorem struct (o name : Origin) (body : List Node) :
    Decides (Node.weightAll nameCost body + nameCost name.token)
      [.struct name.token.text (memberClauses? body)] (Resolve.struct o name body) where
  sound := by
    intro x s t hs h
    have hread := struct_eq_ok hs h
    obtain ⟨ds, s₁, structName, s₂, m, s₃, hprimitive, hnew, hds, hname, hm, rfl, -⟩ :=
      struct_eq_ok_iff.1 h
    obtain ⟨fs, hfs, hvalid, hentries⟩ := read_of_members hds
    have hdistinct := (members_eq_ok hds).distinct
    have hnames : fs.map (·.name) = ds.map (·.name.text) := by
      have hmap := congrArg (List.map Entry.name) hentries
      rw [List.map_map, List.map_map] at hmap
      exact hmap.symm
    refine ⟨⟨⟨hprimitive, hnew, fs, hfs, fun f hf => ?_, ?_⟩, trivial⟩, ?_, hread.members⟩
    · exact ⟨(hvalid f hf).2 s.context rfl, (hvalid f hf).1⟩
    · rw [hnames]
      exact hdistinct
    · rw [hread.context, hfs]
      show (⟨⟨structName.text, (ds.map Declaration.entry).reverse⟩ :: s.context.structs,
        s.context.fields⟩ : Context) = _
      rw [hentries, (intern_eq_ok hname).2.1]
      rfl
  complete := by
    intro s hs hroom h
    obtain ⟨⟨hprimitive, hnew, fs, hfs, hvalid⟩, -⟩ := h
    have hempty : { s with members := [] } = s := by rw [← hs]
    obtain ⟨ds, s₁, hds⟩ := members_isOk hfs ⟨hvalid, by simp [hs]⟩ hroom.left
    obtain ⟨structName, s₂, hname⟩ := intern_isOk (hroom.after (spends_members body) hds)
    obtain ⟨m, s₃, hm⟩ := mark_isOk o.token.line s₂
    rw [← hempty] at hds
    exact ⟨_, _, struct_eq_ok_iff.2 ⟨ds, s₁, structName, s₂, m, s₃, hprimitive, hnew, hds, hname,
      hm, rfl, rfl⟩⟩
  spends := spends_struct o name body

end Decides

/-- The clauses of a chain decide whether it is resolved. -/
theorem decides_statements (ns : List Node) :
    Decides (Node.weightAll nameCost ns) (clausesOf ns) (statements ns) := by
  refine (statement.mutual_induct_unfolding
    (fun n r => Decides (n.weight nameCost) (clauses n) r)
    (fun ns r => Decides (Node.weightAll nameCost ns) (clausesOf ns) r)
    ?structHead ?block ?scriptEnd ?expression ?nil ?field ?array ?struct ?other).2 ns
  case structHead => exact fun o name => .structHead o name _ _
  case block =>
    intro o body ih
    rw [Node.weight, clauses]
    have h := ih.bind fun inner => (Decides.mark o.token.line).map (f := (Statement.block · inner))
    rwa [Nat.add_zero, List.append_nil] at h
  case scriptEnd => exact fun o => (Decides.mark o.token.line).map
  case expression =>
    intro n hhead hblock hend
    have hclauses : clauses n = [.value n] := by
      cases n with
      | block o body => exact (hblock o body rfl).elim
      | scriptEnd o => exact (hend o rfl).elim
      | _ => rw [clauses] <;> simp
    rw [hclauses]
    exact (Decides.expression n).map
  case nil => exact .pure
  case field =>
    intro type name rest ih
    rw [clausesOf]
    refine (Decides.cons (.field type none name) ih).mono ?_
    simp only [Node.weightAll, Node.weight, bracketCost]
    omega
  case array =>
    intro o type index name rest ih
    rw [clausesOf]
    refine (Decides.cons (.field type (some (o, index)) name) ih).mono ?_
    simp only [Node.weightAll, Node.weight, bracketCost]
    omega
  case struct =>
    intro o name o' body rest ih
    rw [clausesOf]
    refine (Decides.cons (.struct o name body) ih).mono ?_
    simp only [Node.weightAll, Node.weight]
    omega
  case other =>
    intro n rest hfield harray hstruct ihn ih
    rw [clausesOf_cons (beginsDeclaration_eq_false hfield harray hstruct), Node.weightAll]
    exact .cons ihn ih

theorem decides_chains (chs : List (List Node)) :
    Decides (chs.map (Node.weightAll nameCost)).sum (chs.flatMap clausesOf) (chains chs) := by
  induction chs with
  | nil => exact .pure
  | cons chain rest ih =>
    rw [List.map_cons, List.sum_cons, List.flatMap_cons, chains]
    exact (decides_statements chain).bind fun xs => ih.map

end Resolve

/-! ### Sources -/

/-- **Main theorem.** A source that is not too long and has a script is compiled exactly if
    every clause of the script is valid in what the clauses before it declare. -/
theorem compile_isOk_iff {source : String} {script : Script}
    (hsize : source.utf8ByteSize < 2 ^ 28) (hscript : Script.ofSource source = .ok script) :
    (∃ t, compile source = .ok t) ↔ ∀ before c rest,
      script.statements.flatMap clausesOf = before ++ c :: rest →
        c.Valid (Context.empty.afterClauses before) := by
  have hdecides := Resolve.decides_chains script.statements
  rw [← Context.admits_iff]
  constructor
  · intro h
    obtain ⟨t, ht⟩ := h
    obtain ⟨script', scope, hscript', hchains, -⟩ := compile_eq_ok_iff.1 ht
    rw [hscript] at hscript'
    cases hscript'
    exact (hdecides.sound t.statements .empty scope rfl hchains).1
  · intro h
    have hroom : Scope.empty.HasRoom (script.statements.map (Node.weightAll nameCost)).sum := by
      have hweight := Syntax.Script.weight_of_ofSource (w := nameCost) hscript
      have hcost : ((Token.scan source).tokens.map (Syntax.tokenWeight nameCost)).sum ≤
          5 * source.utf8ByteSize := by
        have hle := sum_nameCost_le source.toList 0 1
        rwa [String.ofList_toList] at hle
      have hempty : Scope.empty.names.size = 0 := rfl
      unfold Scope.HasRoom NameTable.maxSize
      omega
    obtain ⟨xs, scope, hchains⟩ := hdecides.complete .empty rfl hroom h
    exact ⟨⟨xs, scope.names, scope.count⟩,
      compile_eq_ok_iff.2 ⟨script, scope, hscript, hchains, rfl, rfl⟩⟩

/-- A source with a struct, and with an array in a block whose count is read from data. -/
def countedSource : String :=
  "uint8 n; struct P \x7b int8 a; int16[1 + 2] b; \x7d P p; \x7b char[n] text; text[p.a] + 2; \x7d"

/-- Since the source is compiled, all of its clauses are valid. -/
theorem countedSource_clauses_valid :
    countedSource.utf8ByteSize < 2 ^ 28 ∧ ∃ script, Script.ofSource countedSource = .ok script ∧
      ∀ before c rest, script.statements.flatMap clausesOf = before ++ c :: rest →
        c.Valid (Context.empty.afterClauses before) := by
  have hsize : countedSource.utf8ByteSize < 2 ^ 28 := by decide +kernel
  have hcompiled : (compile countedSource).toBool = true := by decide +kernel
  cases ht : compile countedSource with
  | error e => simp [ht, Except.toBool] at hcompiled
  | ok t =>
    obtain ⟨script, -, hscript, -⟩ := compile_eq_ok_iff.1 ht
    exact ⟨hsize, script, hscript, (compile_isOk_iff hsize hscript).1 ⟨t, ht⟩⟩

end ByteBricks.Template
