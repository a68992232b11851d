import ByteBricks.Proofs.Template.Lowering
import ByteBricks.Proofs.Template.Numbering
import ByteBricks.Proofs.Template.RoundTrip

/-! # Linking Chains

  A chain of statements grows at its end: each statement is stored first and linked behind
  the ones before it, and so is each chain of a script behind the chains before it. The store
  is left with the cells of the template and no others. -/

namespace ByteBricks.Template

open BlockStore (Contains)
open Lowering (Adds Rewrites)
open Resolve (fail)
open Syntax (Node Origin Script Strand)

variable {s : Lowering}

/-! ### Chains -/

/-- The scope does not know the links. -/
theorem scope_link (s : Lowering) (h next : Handle) :
    { s with cells := s.cells.link h next }.scope = s.scope := by
  unfold Lowering.scope Cells.link
  rw [BlockStore.modify_size]

section Chains

variable {α : Type} [HasCells α]

/-- The ends of a chain of cells. -/
def strand? (xs : List α) : Option Strand := do
  pure ⟨← headOf? xs, ← xs.getLast?.map handleOf⟩

theorem strand?_concat (xs : List α) (x : α) :
    strand? (xs ++ [x]) = some ⟨(headOf? xs).getD (handleOf x), handleOf x⟩ := by
  unfold strand?
  rw [List.getLast?_concat]
  cases xs <;> rfl

/-- A chain that is not empty has ends. -/
theorem strand?_eq_some {xs : List α} (h : xs ≠ []) :
    ∃ tail, strand? xs = some ⟨(headOf? xs).getD ⟨0⟩, tail⟩ := by
  rcases List.eq_nil_or_concat' xs with rfl | ⟨xs, x, rfl⟩
  · exact absurd rfl h
  · refine ⟨handleOf x, ?_⟩
    rw [strand?_concat]
    cases xs <;> rfl

theorem strand?_eq_some_iff {xs : List α} {c : Strand} :
    strand? xs = some c ↔ headOf? xs = some c.head ∧ xs.getLast?.map handleOf = some c.tail := by
  unfold strand?
  obtain ⟨head, tail⟩ := c
  cases headOf? xs <;> cases xs.getLast?.map handleOf <;> simp

/-- Only the link of its last root changes if something is put behind a chain. -/
theorem exists_last_root (xs : List α) (x : α) : ∃ m : Multiset Placed,
    ∀ ys : List α, (↑(chainCells (xs ++ x :: ys)) : Multiset Placed) =
      {rootCell x (headOf? ys)} + (m + ↑(chainCells ys)) := by
  induction xs with
  | nil =>
    refine ⟨HasCells.inner x, fun ys => ?_⟩
    rw [List.nil_append, chainCells, treeCells, ← Multiset.coe_add, ← Multiset.coe_add,
      Multiset.coe_singleton, ← add_assoc, add_comm {_}]
  | cons y xs ih =>
    obtain ⟨m, hcells⟩ := ih
    refine ⟨↑(treeCells y (headOf? (xs ++ [x]))) + m, fun ys => ?_⟩
    have hhead : headOf? (xs ++ x :: ys) = headOf? (xs ++ [x]) := by cases xs <;> rfl
    rw [List.cons_append, chainCells, hhead, ← Multiset.coe_add, hcells, add_assoc, add_left_comm]

/-- A chain of cells is linked behind another one. -/
theorem contains_link {cells : Cells} (xs : List α) (x : α) {ys : List α} {h : Handle}
    (hys : headOf? ys = some h) {m : Multiset Placed}
    (hcells : cells.Contains (↑(chainCells (xs ++ [x])) + (↑(chainCells ys) + m))) :
    (cells.link (handleOf x) h).Contains (↑(chainCells (xs ++ x :: ys)) + m) := by
  obtain ⟨rest, hlast⟩ := exists_last_root xs x
  rw [hlast [], add_assoc] at hcells
  refine (Contains.modify hcells (·.withNext h)).of_eq ?_
  rw [hlast ys, hys, add_assoc, add_assoc, chainCells, Multiset.coe_nil, add_zero]
  rfl

/-- Where there are cells of a list, they are among those of the store. -/
def Keeps (s : Lowering) (cells : List Placed) : Prop := ∃ m, s.cells.Contains (↑cells + m)

theorem Keeps.sound {cells : List Placed} (h : Keeps s cells) : s.cells.Sound :=
  h.elim fun _ hm => hm.sound

theorem keeps_nil (hs : s.cells.Sound) : Keeps s [] := by
  obtain ⟨m, hm⟩ := hs.exists_contains
  exact ⟨m, hm.of_eq (zero_add m)⟩

theorem Keeps.rewrite {t : Lowering} {a b : List Placed} (hs : Keeps s a)
    (h : s.Rewrites t a b) : Keeps t b :=
  hs.imp fun m hm => h.cells m hm

/-- A tree is appended to a chain, if there is one. -/
theorem append_eq_ok (s : Lowering) (xs : List α) (x : α) :
    ∃ t strand, Lower.append (strand? xs) (handleOf x) s = .ok (strand, t) ∧
      t.scope = s.scope ∧ some strand = strand? (xs ++ [x]) ∧
      s.Rewrites t (chainCells xs ++ treeCells x none) (chainCells (xs ++ [x])) := by
  have hchain : chainCells [x] = treeCells x none := List.append_nil _
  rcases List.eq_nil_or_concat' xs with rfl | ⟨xs, y, rfl⟩
  · refine ⟨s, ⟨handleOf x, handleOf x⟩, rfl, rfl, rfl, ?_⟩
    rw [List.nil_append, hchain]
    exact .refl s _
  · rw [strand?_concat, strand?_concat]
    refine ⟨{ s with cells := s.cells.link (handleOf y) (handleOf x) }, _, rfl, ?_, ?_, ?_⟩
    · exact scope_link s _ _
    · cases xs <;> rfl
    · refine ⟨fun m hm => ?_, rfl, rfl, rfl⟩
      rw [← hchain, ← Multiset.coe_add, add_assoc] at hm
      rw [List.append_assoc]
      exact contains_link xs y rfl hm

/-- Statements are stored behind others; there are some if there are trees for them. -/
structure Extends (ns : List Node) (ys : List α) (s : Lowering) (chain : Option Strand)
    (xs : List α) (t : Lowering) : Prop where
  strand : chain = strand? (ys ++ xs)
  cells : s.Rewrites t (chainCells ys) (chainCells (ys ++ xs))
  some : ns ≠ [] → xs ≠ []

theorem tracks_nil (ys : List α) :
    Tracks (Extends [] ys s) s (pure (strand? ys)) (pure []) := by
  refine .pure ⟨?_, ?_, fun h => absurd rfl h⟩
  · rw [List.append_nil]
  · rw [List.append_nil]
    exact .refl s _

/-- A statement is linked behind others before the next one is stored. -/
theorem tracks_cons {γ : Type} {x : Lower Handle} {y : Resolve γ} {f : γ → α} {n : Node}
    {front rest : List Node} {k : Option Strand → Lower (Option Strand)} {l : Resolve (List α)}
    {ys : List α} (hs : Keeps s (chainCells ys))
    (hx : Tracks (fun h d t => Stores s h (f d) t) s x y)
    (hk : ∀ zs t, Keeps t (chainCells zs) → t.members.isSome = s.members.isSome →
      Tracks (Extends rest zs t) t (k (strand? zs)) l) :
    Tracks (Extends (n :: front) ys s) s
      (do
        let h ← x
        k (some (← Lower.append (strand? ys) h)))
      (do
        let d ← y
        pure (f d :: (← l))) := by
  refine .bind hx fun h d t hd => ?_
  obtain ⟨rfl, hd⟩ := hd
  obtain ⟨u, strand, happend, hscope, hstrand, hlinked⟩ := append_eq_ok t ys (f d)
  have hstored := (Rewrites.prepend hd (chainCells ys)).trans hlinked
  rw [List.append_nil] at hstored
  have htail := hk (ys ++ [f d]) u (hs.rewrite hstored) hstored.members
  rw [← hstrand] at htail
  have hwhole : Tracks (Extends (n :: front) ys s) u (k (some strand))
      (do pure (f d :: (← l))) := by
    rw [← bind_pure (k (some strand))]
    refine .bind htail fun chain xs v h => .pure ⟨?_, ?_, fun _ => List.cons_ne_nil _ _⟩
    · rw [h.strand, List.append_assoc]
      rfl
    · have hcells := hstored.trans h.cells
      rwa [List.append_assoc] at hcells
  -- The scope does not know the links.
  unfold Tracks at hwhole ⊢
  rw [hscope] at hwhole
  show Matches _ (Lower.append (strand? ys) (handleOf (f d)) t >>= fun p => k (some p.1) p.2) _
  rw [happend]
  exact hwhole

end Chains

/-! ### Structs -/

/-- The members of a struct are stored behind others. -/
theorem tracks_members (ns : List Node) : ∀ (ys : List Declaration) {s : Lowering},
    Keeps s (chainCells ys) → s.members.isSome = true →
    Tracks (Extends ns ys s) s (Lower.statements (strand? ys) ns) (Resolve.members ns) := by
  fun_induction Resolve.members ns with
  | case1 =>
    intro ys s _ _
    rw [Lower.statements]
    exact tracks_nil ys
  | case2 type name rest ih =>
    intro ys s hs hin
    rw [Lower.statements]
    exact tracks_cons (f := id) (k := (Lower.statements · rest)) (l := Resolve.members rest) hs
      (tracks_declaration hs.sound hin type none name)
      fun zs t hzs hsame => ih _ hzs (hsame.trans hin)
  | case3 o type index name rest ih =>
    intro ys s hs hin
    rw [Lower.statements]
    exact tracks_cons (f := id) (k := (Lower.statements · rest)) (l := Resolve.members rest) hs
      (tracks_declaration hs.sound hin type (some (o, index)) name)
      fun zs t hzs hsame => ih _ hzs (hsame.trans hin)
  | case4 n rest hfield harray =>
    intro ys s _ hin
    -- What is not a declaration is refused before it is looked at.
    have hleave (line : Nat) (k : Lower (Option Strand)) :
        Tracks (Extends (n :: rest) ys s) s (do Lower.leaveStruct line; k)
          (fail line .memberNotDeclaration) := by
      unfold Lower.leaveStruct
      rw [bind_assoc]
      refine .read ?_
      obtain ⟨members, hmembers⟩ := Option.isSome_iff_exists.1 hin
      rw [hmembers]
      exact .error _
    by_cases hstruct : ∃ o name o' body rest', n = .structHead o name ∧
        rest = .block o' body :: rest'
    · obtain ⟨o, name, o', body, rest', rfl, rfl⟩ := hstruct
      rw [Lower.statements]
      exact hleave _ _
    · rw [Lower.statements]
      · exact hleave _ _
      all_goals grind

/-- The members are taken out of the scope as soon as the body is read. -/
theorem Resolve.leave_struct (text : String) (t : Token) (line : Nat) (ds : List Declaration) :
    (do
      let structName ← intern t
      let m ← mark line
      modify fun s => { s with structs := ⟨text, s.members⟩ :: s.structs, members := [] }
      pure (.struct m structName ds) : Resolve Statement) =
    (do
      let members := (← get).members
      modify fun s => { s with members := [] }
      let structName ← intern t
      let m ← mark line
      modify fun s => { s with structs := ⟨text, members⟩ :: s.structs }
      pure (.struct m structName ds)) := by
  funext s
  show (intern t s >>= _) = (intern t { s with members := [] } >>= _)
  unfold intern
  cases s.names.intern? t.text <;> rfl

theorem tracks_struct {o name : Origin} {body : List Node} (hbody : body ≠ [])
    (hs : s.cells.Sound) (hout : s.members.isSome = false) :
    Tracks (Stores s) s (Lower.struct o name body.isEmpty (Lower.statements none body))
      (Resolve.struct o name body) := by
  unfold Lower.struct Resolve.struct
  simp only [Resolve.leave_struct]
  refine .checked (if_pos (by simpa using hbody)) ?_
  refine .bind (.check rfl) fun _ _ t h => ?_
  obtain ⟨-, rfl⟩ := h
  refine .get (.bind (.check ?_) fun _ _ u h => ?_)
  · rw [t.struct?_scope, Option.isNone_map]
  obtain ⟨-, rfl⟩ := h
  refine .read (.bind (.modify rfl) fun _ _ t h => ?_)
  subst h
  refine .bind (tracks_members body [] (keeps_nil hs) rfl) fun chain ds t h => ?_
  obtain ⟨tail, hstrand⟩ := strand?_eq_some (h.some hbody)
  have hnone : u.members = none :=
    Option.isNone_iff_eq_none.1 (Option.isSome_eq_false_iff.1 hout)
  refine .read (.look (.bind (.modify ?_) fun _ _ v h' => ?_))
  · rw [hnone]
    rfl
  subst h'
  -- The struct is stored when its body is, and the members before it are back in place.
  have hmembers : u.Adds { t with members := u.members } (chainCells ds) :=
    ⟨h.cells.cells, rfl, h.cells.first, h.cells.last⟩
  refine .required (h.strand.trans hstrand) ?_
  refine .bind (tracks_intern name.token) fun structName name' v h' => ?_
  obtain ⟨rfl, -, hname⟩ := h'
  refine .bind (tracks_alloc o.token.line _ none) fun h m w hm => ?_
  obtain ⟨rfl, hcell⟩ := hm
  refine .bind (.modify ?_) fun _ _ x hx => ?_
  · rfl
  subst hx
  have hcells := (hmembers.trans hname).trans hcell
  rw [List.append_nil] at hcells
  exact .pure ⟨rfl, hcells.cells, hcells.members, hcells.first, hcells.last⟩

/-! ### Statements -/

/-- A tree that may stand in a chain of a script. -/
def Stands (n : Node) : Prop := n.Proper ∨ ∃ o, n = .scriptEnd o

theorem stands_of_properAll {ns : List Node} (h : Node.ProperAll ns) : ∀ n ∈ ns, Stands n :=
  fun n hn => .inl (Node.properAll_iff.1 h n hn)

theorem tracks_block {o : Origin} {body : List Node} (hbody : body ≠ [])
    {x : Lower (Option Strand)} {y : Resolve (List Statement)}
    (hx : Tracks (Extends body [] s) s x y) :
    Tracks (Stores s) s (Lower.block o x) (do
      let inner ← y
      pure (Statement.block (← Resolve.mark o.token.line) inner)) := by
  unfold Lower.block
  refine .bind hx fun chain inner t h => ?_
  obtain ⟨tail, hstrand⟩ := strand?_eq_some (h.some hbody)
  refine .required (h.strand.trans hstrand) ?_
  rw [← bind_pure (Lower.alloc _ _ _)]
  refine .bind (tracks_alloc o.token.line _ none) fun h m v hm => ?_
  obtain ⟨rfl, hcell⟩ := hm
  refine .pure ⟨rfl, ?_⟩
  show s.Adds v (Statement.innerAll inner ++ _)
  rw [Statement.innerAll_eq]
  exact Adds.trans h.cells hcell

theorem leaves_struct {α β : Type} {R : α → β → Lowering → Prop} {x : Lower α} {y : Resolve β}
    {line : Nat} (hout : s.members.isSome = false) (h : Tracks R s x y) :
    Tracks R s (do Lower.leaveStruct line; x) y := by
  unfold Lower.leaveStruct
  rw [bind_assoc]
  exact .read (.checked (if_pos (Option.isSome_eq_false_iff.1 hout)) h)

/-- The statements of a chain are stored behind others. -/
theorem tracks_statements (ns : List Node) : (∀ n ∈ ns, Stands n) →
    ∀ (ys : List Statement) {s : Lowering}, Keeps s (chainCells ys) → s.members.isSome = false →
    Tracks (Extends ns ys s) s (Lower.statements (strand? ys) ns) (Resolve.statements ns) := by
  refine (Resolve.statement.mutual_induct_unfolding
    (fun n r => Stands n → ∀ {s : Lowering}, s.cells.Sound → s.members.isSome = false →
      Tracks (Stores s) s (Lower.statement n) r)
    (fun ns r => (∀ n ∈ ns, Stands n) → ∀ (ys : List Statement) {s : Lowering},
      Keeps s (chainCells ys) → s.members.isSome = false →
      Tracks (Extends ns ys s) s (Lower.statements (strand? ys) ns) r)
    ?structHead ?block ?scriptEnd ?expression ?nil ?field ?array ?struct ?other).2 ns
  case structHead =>
    intro o name _ s _ _
    rw [Lower.statement]
    exact .fail
  case block =>
    intro o body ih hn s hs hout
    rw [Lower.statement]
    obtain hn | ⟨o', ho'⟩ := hn
    · rw [Node.Proper] at hn
      exact tracks_block hn.1 (ih (stands_of_properAll hn.2) [] (keeps_nil hs) hout)
    · cases ho'
  case scriptEnd =>
    intro o _ s _ _
    rw [Lower.statement, ← bind_pure (Lower.alloc _ _ _)]
    refine .bind (tracks_alloc o.token.line _ _) fun h m t hm => ?_
    obtain ⟨rfl, hcell⟩ := hm
    exact .pure ⟨rfl, hcell⟩
  case expression =>
    intro n hhead hblock hend _ s hs _
    rw [Lower.statement]
    · rw [← bind_pure (Lower.expr n)]
      refine .bind (tracks_expr n hs) fun h e t he => ?_
      obtain ⟨rfl, he⟩ := he
      exact .pure ⟨rfl, he⟩
    all_goals assumption
  case nil =>
    intro _ ys s _ _
    rw [Lower.statements]
    exact tracks_nil ys
  case field =>
    intro type name rest ih hns ys s hs hout
    rw [Lower.statements]
    exact tracks_cons (k := (Lower.statements · rest)) hs
      (tracks_declaration hs.sound hout type none name)
      fun zs t hzs hsame => ih (fun n hn => hns n (by simp [hn])) _ hzs (hsame.trans hout)
  case array =>
    intro o type index name rest ih hns ys s hs hout
    rw [Lower.statements]
    exact tracks_cons (k := (Lower.statements · rest)) hs
      (tracks_declaration hs.sound hout type (some (o, index)) name)
      fun zs t hzs hsame => ih (fun n hn => hns n (by simp [hn])) _ hzs (hsame.trans hout)
  case struct =>
    intro o name o' body rest ih hns ys s hs hout
    rw [Lower.statements]
    have hbody : (Node.block o' body).Proper := by
      obtain h | ⟨o, ho⟩ := hns (.block o' body) (by simp)
      · exact h
      · cases ho
    rw [Node.Proper] at hbody
    exact leaves_struct hout (tracks_cons (f := id) (k := (Lower.statements · rest)) hs
      (tracks_struct hbody.1 hs.sound hout)
      fun zs t hzs hsame => ih (fun n hn => hns n (by simp [hn])) _ hzs (hsame.trans hout))
  case other =>
    intro n rest hfield harray hstruct ihn ih hns ys s hs hout
    obtain ⟨hn, hrest⟩ := List.forall_mem_cons.1 hns
    rw [Lower.statements]
    · exact leaves_struct hout (tracks_cons (f := id) (k := (Lower.statements · rest)) hs
        (ihn hn hs.sound hout) fun zs t hzs hsame => ih hrest _ hzs (hsame.trans hout))
    all_goals assumption

/-! ### Scripts -/

/-- The statements are all that is stored, and the first and the last one are known. -/
structure Laid (s : Lowering) (xs : List Statement) : Prop where
  cells : s.cells.Contains (chainCells xs)
  first : s.first = headOf? xs
  last : s.last = xs.getLast?.map handleOf
  members : s.members.isSome = false

theorem laid_empty : Laid .empty [] := ⟨Contains.empty, rfl, rfl, rfl⟩

theorem scope_append (s : Lowering) (chain : Strand) : (s.append chain).scope = s.scope := by
  unfold Lowering.append
  cases s.last with
  | none => rfl
  | some tail => exact scope_link s tail chain.head

/-- A chain of statements is linked behind all those before it. -/
theorem Laid.append {t : Lowering} {ys xs : List Statement} {chain : Strand} (hs : Laid s ys)
    (hxs : s.Adds t (chainCells xs)) (hchain : some chain = strand? xs) :
    Laid (t.append chain) (ys ++ xs) := by
  have hcells := hxs.cells _ (hs.cells.of_eq (zero_add _))
  have hlast := hxs.last.trans hs.last
  have hfirst := hxs.first.trans hs.first
  have hmembers := hxs.members.trans hs.members
  obtain ⟨hhead, htail⟩ := strand?_eq_some_iff.1 hchain.symm
  unfold Lowering.append
  rcases List.eq_nil_or_concat' ys with rfl | ⟨ys, y, rfl⟩
  · rw [hlast]
    exact ⟨hcells.of_eq (add_zero _).symm, hhead.symm, htail.symm, hmembers⟩
  · rw [hlast, List.getLast?_concat, List.append_assoc]
    rw [add_comm, ← add_zero (chainCells xs : Multiset Placed)] at hcells
    have hall := (contains_link ys y hhead hcells).of_eq (add_zero _).symm
    refine ⟨hall, ?_, ?_, hmembers⟩
    · show t.first = _
      rw [hfirst]
      cases ys <;> rfl
    · obtain ⟨x, hx, hlast⟩ := Option.map_eq_some_iff.1 htail
      rw [← List.append_assoc, List.getLast?_append, hx]
      exact congrArg some hlast.symm

/-- The chains of a script are stored one behind the other. -/
theorem tracks_chains {chs : List (List Node)} (hchs : ∀ chain ∈ chs, ∀ n ∈ chain, Stands n)
    {ys : List Statement} (hs : Laid s ys) :
    Tracks (fun _ xs t => Laid t (ys ++ xs)) s (Lower.chains chs) (Resolve.chains chs) := by
  induction chs generalizing s ys with
  | nil =>
    rw [Lower.chains, Resolve.chains]
    refine .pure ?_
    rwa [List.append_nil]
  | cons ns rest ih =>
    obtain ⟨hns, hrest⟩ := List.forall_mem_cons.1 hchs
    rw [Lower.chains, Resolve.chains]
    refine .bind (tracks_statements ns hns [] (keeps_nil hs.cells.sound) hs.members)
      fun chain xs t h => ?_
    have hchain : chain = strand? xs := h.strand
    have hcells : s.Adds t (chainCells xs) := h.cells
    -- The rest of the chains goes on behind what is laid then.
    have hwhole {u : Lowering} (hlaid : Laid u (ys ++ xs)) :
        Tracks (fun _ zs t => Laid t (ys ++ zs)) u (Lower.chains rest)
          (do pure (xs ++ (← Resolve.chains rest))) := by
      rw [← bind_pure (Lower.chains rest)]
      refine .bind (ih hrest hlaid) fun _ zs v hv => .pure ?_
      rwa [← List.append_assoc]
    cases chain with
    | some strand => exact .silent (scope_append t strand) (hwhole (hs.append hcells hchain))
    | none =>
      have hempty : xs = [] := by
        by_contra hne
        obtain ⟨tail, hstrand⟩ := strand?_eq_some hne
        rw [hstrand] at hchain
        cases hchain
      subst hempty
      have hkept := hcells.cells _ (hs.cells.of_eq (zero_add _))
      refine hwhole ⟨?_, ?_, ?_, hcells.members.trans hs.members⟩
      · rw [List.append_nil]
        exact hkept.of_eq (zero_add _).symm
      · rw [List.append_nil]
        exact hcells.first.trans hs.first
      · rw [List.append_nil]
        exact hcells.last.trans hs.last

/-- A script that ends is left as it is. -/
theorem Laid.finish {xs : List Statement} {m : Mark} (hs : Laid s (xs ++ [.scriptEnd m])) :
    s.finish = ⟨s.cells, s.names, s.first⟩ := by
  obtain ⟨rest, hroot⟩ := exists_last_root xs (.scriptEnd m)
  have hcells := hs.cells.has
  rw [hroot [], BlockStore.has_add, BlockStore.has_singleton] at hcells
  have hlast := hs.last
  rw [List.getLast?_concat] at hlast
  have hget : s.cells.get? (handleOf (.scriptEnd m : Statement)) =
    some (rootCell (.scriptEnd m : Statement) none).2 := hcells.1
  have hends : s.ends = true := by
    unfold Lowering.ends
    rw [hlast, Option.map_some, Option.bind_some, hget]
    rfl
  unfold Lowering.finish
  rw [hends]
  rfl

/-! ### Sources -/

/-- The cells of the code in the order of their handles. -/
def Code.entries (c : Code) : List Placed := c.cells.entries

/-- The code is the template, whose nodes are the cells of a store. -/
structure Code.Represents (c : Code) (t : Template) : Prop where
  sound : c.cells.Sound
  cells : c.entries = t.cells
  names : c.names = t.names
  first : c.first = t.first?

/-- A source is lowered to the code of its template, or refused as it is. -/
inductive Represented : Except Lowering.Halt Code → Except CompileError Template → Prop
  | ok {c : Code} {t : Template} (h : c.Represents t) : Represented (.ok c) (.ok t)
  | error (e : CompileError) : Represented (.error (.failed e)) (.error e)

/-- **Main theorem.** The code of a source is the template of the source in a store, with every
    cell at the place of its node and linked as the node is. -/
theorem represented_ofSource (source : String) :
    Represented (Code.ofSource source) (compile source) := by
  have hcompile : compile source = ofReading (Script.ofSource source) := rfl
  unfold Code.ofSource
  cases hscript : Script.ofSource source with
  | error failure =>
    rw [hcompile, hscript]
    exact .error _
  | ok script =>
    obtain ⟨before, last, o, hstatements, hbefore, hlast⟩ := Script.proper_of_ofSource hscript
    have hstands : ∀ chain ∈ script.statements, ∀ n ∈ chain, Stands n := by
      rw [hstatements]
      refine List.forall_mem_append.2 ⟨fun chain hchain => ?_, List.forall_mem_singleton.2 ?_⟩
      · exact stands_of_properAll (hbefore chain hchain)
      · exact List.forall_mem_append.2 ⟨stands_of_properAll hlast,
          List.forall_mem_singleton.2 (.inr ⟨o, rfl⟩)⟩
    have htracks := tracks_chains hstands laid_empty
    unfold Tracks at htracks
    have hempty : Lowering.empty.scope = Scope.empty := rfl
    rw [hempty] at htracks
    rw [hscript] at hcompile
    unfold ofReading ofScript at hcompile
    unfold Code.ofScript
    simp only [StateT.run] at *
    generalize Lower.chains script.statements .empty = lowered at htracks ⊢
    generalize Resolve.chains script.statements .empty = resolved at htracks hcompile
    cases htracks with
    | error e =>
      rw [hcompile]
      exact .error _
    | @ok _ statements s hlaid =>
      have hcompile : compile source = .ok ⟨statements, s.names, s.cells.size⟩ := hcompile
      obtain ⟨xs, m, -, -, -, hend, -⟩ := restates_of_compile hcompile
      have hids := map_id_cells_of_compile hcompile
      have hend : [] ++ statements = xs ++ [.scriptEnd m] := hend
      rw [hend] at hlaid
      show Represented (.ok s.finish) _
      rw [hcompile, hlaid.finish]
      rw [← hend] at hlaid
      exact .ok ⟨hlaid.cells.sound, hlaid.cells.entries hids, rfl, hlaid.first⟩

theorem exists_represents {source : String} {t : Template} (h : compile source = .ok t) :
    ∃ c, Code.ofSource source = .ok c ∧ c.Represents t := by
  have hrepresented := represented_ofSource source
  rw [h] at hrepresented
  cases hsource : Code.ofSource source with
  | error e =>
    rw [hsource] at hrepresented
    cases hrepresented
  | ok c =>
    rw [hsource] at hrepresented
    cases hrepresented with
    | ok hc => exact ⟨c, rfl, hc⟩

end ByteBricks.Template
