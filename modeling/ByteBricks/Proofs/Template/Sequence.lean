import ByteBricks.Proofs.Execution.Repeat
import ByteBricks.Proofs.Template.Room

/-! # Compiling Two Sources as One

  Two sources with a line feed between them are compiled as if each stood alone: the
  statements of the second one come behind those of the first one and are only moved.
  The first source has to end between statements, and no struct may have two
  declarations. -/

namespace ByteBricks.Template

open Execution (Command commandsOf)
open Syntax (Node Script)

/-- A source is compiled if its script can be read and its chains have a meaning. -/
theorem compile_eq_ok_iff {source : String} {t : Template} :
    compile source = .ok t ↔ ∃ script scope, Script.ofSource source = .ok script ∧
      Resolve.chains script.statements .empty = .ok (t.statements, scope) ∧
      t.names = scope.names ∧ t.count = scope.count := by
  have hreading : compile source = ofReading (Script.ofSource source) := rfl
  rw [hreading]
  unfold ofReading
  cases Script.ofSource source with
  | error failure => simp
  | ok script =>
    unfold ofScript
    obtain ⟨statements, names, count⟩ := t
    cases hchains : (Resolve.chains script.statements) .empty with
    | error e =>
      simp [StateT.run, hchains, bind, Except.bind, Except.mapError]
    | ok p =>
      obtain ⟨xs, scope⟩ := p
      simp only [StateT.run, hchains, bind, Except.bind, pure, Except.pure, Except.mapError,
        Except.ok.injEq, Template.mk.injEq]
      constructor
      · intro h
        obtain ⟨rfl, rfl, rfl⟩ := h
        exact ⟨script, scope, rfl, hchains, rfl, rfl⟩
      · intro h
        obtain ⟨script', scope', rfl, h, rfl, rfl⟩ := h
        rw [hchains] at h
        cases h
        exact ⟨rfl, rfl, rfl⟩

/-! ### Structs -/

/-- The structs behind some commands are those that the commands declare. -/
theorem Context.structs_afterAll (Γ : Context) (commands : List Command) :
    ((Γ.afterAll commands).structs.map (·.name)) =
      (commands.filterMap Command.struct?).reverse ++ Γ.structs.map (·.name) := by
  induction commands generalizing Γ with
  | nil => rfl
  | cons c rest ih =>
    show (((Γ.after c).afterAll rest).structs.map (·.name)) = _
    rw [ih]
    cases c with
    | declare line struct members =>
      have hstruct : (Command.declare line struct members).struct? = some struct := rfl
      rw [List.filterMap_cons_some hstruct, List.reverse_cons, List.append_assoc]
      rfl
    | place d | evaluate e => rfl

/-- The scope behind the statements of a source knows the structs that they declare. -/
theorem structs_of_chains {chs : List (List Node)} {xs : List Statement} {s : Scope}
    (h : Resolve.chains chs .empty = .ok (xs, s)) :
    s.structs.map (·.name) = ((commandsOf xs).filterMap Command.struct?).reverse := by
  have hread := Resolve.sound_chains chs xs .empty s rfl h
  have hstructs : s.structs = s.context.structs := rfl
  rw [hstructs, hread.context, Context.structs_afterAll]
  exact List.append_nil _

/-- The name of each declared struct takes up four bytes of the name table at least. -/
theorem length_structNames_of_compile {source : String} {t : Template}
    (h : compile source = .ok t) :
    NameTable.lengthSize * t.structNames.length ≤ NameTable.maxSize := by
  obtain ⟨script, scope, -, hchains, -, -⟩ := compile_eq_ok_iff.1 h
  have hread := Resolve.sound_chains script.statements t.statements .empty scope rfl hchains
  have hlength := congrArg List.length (structs_of_chains hchains)
  rw [List.length_map, List.length_reverse] at hlength
  have hroom : NameTable.lengthSize * scope.structs.length + 0 ≤ 0 + scope.names.size := hread.room
  rw [hlength, Nat.add_zero, Nat.zero_add] at hroom
  exact Nat.le_trans hroom (hread.names.bounded (Nat.zero_le _))

/-! ### Sources -/

namespace Resolve

theorem chains_append {a b : List (List Node)} {xs : List Statement} {s u : Scope} :
    chains (a ++ b) s = .ok (xs, u) ↔ ∃ ys t zs, chains a s = .ok (ys, t) ∧
      chains b t = .ok (zs, u) ∧ xs = ys ++ zs := by
  induction a generalizing xs s with
  | nil =>
    simp [chains]
  | cons chain a ih =>
    rw [List.cons_append, chains, chains]
    simp only [bind_eq_ok, pure_eq_ok]
    constructor
    · intro h
      obtain ⟨first, t, hfirst, rest, u', hrest, rfl, rfl⟩ := h
      obtain ⟨ys, v, zs, hys, hzs, rfl⟩ := ih.1 hrest
      exact ⟨first ++ ys, v, zs, ⟨first, t, hfirst, ys, v, hys, rfl, rfl⟩, hzs,
        (List.append_assoc _ _ _).symm⟩
    · intro h
      obtain ⟨ys, v, zs, ⟨first, t, hfirst, rest, v', hrest, rfl, rfl⟩, hzs, rfl⟩ := h
      exact ⟨first, t, hfirst, rest ++ zs, u, ih.2 ⟨rest, v, zs, hrest, hzs, rfl⟩,
        List.append_assoc _ _ _, rfl⟩

/-- The end of the script is a statement by itself. -/
theorem chains_scriptEnd_eq_ok {o : Syntax.Origin} {xs : List Statement} {s u : Scope} :
    chains [[.scriptEnd o]] s = .ok (xs, u) ↔
      ∃ m, mark o.token.line s = .ok (m, u) ∧ xs = [.scriptEnd m] := by
  have hchain : statements [.scriptEnd o] = (do
      let m ← mark o.token.line
      pure [.scriptEnd m]) := by
    rw [statements_cons rfl, statement, statements]
    simp
  rw [chains, chains, hchain]
  simp only [bind_eq_ok, pure_eq_ok]
  constructor
  · intro h
    obtain ⟨_, _, ⟨m, _, hm, rfl, rfl⟩, _, _, ⟨rfl, rfl⟩, rfl, rfl⟩ := h
    exact ⟨m, hm, rfl⟩
  · intro h
    obtain ⟨m, hm, rfl⟩ := h
    exact ⟨_, _, ⟨m, u, hm, rfl, rfl⟩, [], u, ⟨rfl, rfl⟩, rfl, rfl⟩

/-- A mark declares nothing. -/
theorem declared_of_mark {line : Nat} {m : Mark} {s u : Scope} (h : mark line s = .ok (m, u)) :
    u.names = s.names ∧ u.structs = s.structs := by
  cases h
  exact ⟨rfl, rfl⟩

end Resolve

/-- Nothing is in front of a scope without members that is put behind the empty one. -/
theorem Scope.empty_behind {s : Scope} (hs : s.members = []) : Scope.empty.behind s = s := by
  obtain ⟨structs, fields, members, names, count⟩ := s
  obtain rfl : members = [] := hs
  simp [behind, empty, NameTable.empty]

/-- **Main theorem.** If the end of one source makes a chain of its own, and another source
    declares other structs, both with a line feed between them are compiled, and the
    statements of the second source come behind those of the first one. -/
theorem compile_append {a b : String} {ta tb : Template} {sa : Script} {o : Syntax.Origin}
    (hsize : a.utf8ByteSize + b.utf8ByteSize < 2 ^ 28) (ha : compile a = .ok ta)
    (hb : compile b = .ok tb) (hsa : Script.ofSource a = .ok sa)
    (hend : sa.statements.getLast? = some [.scriptEnd o])
    (hstructs : ∀ name ∈ ta.structNames, name ∉ tb.structNames) :
    ∃ t d before m, compile (a ++ "\n" ++ b) = .ok t ∧
      ta.statements = before ++ [.scriptEnd m] ∧
      t.statements = before ++ Statement.shiftAll d tb.statements := by
  obtain ⟨sa', ua, hsa', hchains, -⟩ := compile_eq_ok_iff.1 ha
  rw [hsa] at hsa'
  cases hsa'
  obtain ⟨sb, ub, hsb, hchains', -⟩ := compile_eq_ok_iff.1 hb
  obtain ⟨before, hbefore⟩ := List.getLast?_eq_some_iff.1 hend
  obtain ⟨d, trees, hscript⟩ := Script.ofSource_append hsa hsb hbefore
  have hnames := size_names_le hsa hchains
  have hnames' := size_names_le hsb hchains'
  -- Behind its own statements the first source only has the mark for its end.
  rw [hbefore] at hchains
  obtain ⟨xs, front, ys, hxs, hys, hstatements⟩ := Resolve.chains_append.1 hchains
  obtain ⟨m, hm, rfl⟩ := Resolve.chains_scriptEnd_eq_ok.1 hys
  obtain ⟨hfront, hfronts⟩ := Resolve.declared_of_mark hm
  have hmembers : front.members = [] :=
    (Resolve.sound_chains before xs .empty front rfl hxs).members
  have hfits : ub.FitsBehind front := by
    constructor
    case names =>
      rw [← hfront]
      unfold NameTable.maxSize
      omega
    case structs =>
      intro e he e' he' heq
      have hname : e'.name ∈ ua.structs.map (·.name) := by
        rw [hfronts]
        exact List.mem_map_of_mem he'
      have hname' : e.name ∈ ub.structs.map (·.name) := List.mem_map_of_mem he
      rw [structs_of_chains (Resolve.chains_append.2 ⟨xs, front, _, hxs, hys, rfl⟩),
        List.mem_reverse, ← hstatements] at hname
      rw [structs_of_chains hchains', List.mem_reverse, ← heq] at hname'
      exact hstructs _ hname hname'
  obtain ⟨-, hmoved⟩ := Resolve.follows_chains (d := d) sb.statements .empty tb.statements ub
    hchains' hfits
  rw [Scope.empty_behind hmembers] at hmoved
  let moved := Statement.shiftAll (front.shift d.lines) tb.statements
  have hall := Resolve.chains_append.2 ⟨xs, front, moved, hxs, hmoved, rfl⟩
  exact ⟨⟨xs ++ moved, (ub.behind front).names, (ub.behind front).count⟩, front.shift d.lines,
    xs, m, compile_eq_ok_iff.2 ⟨_, ub.behind front, hscript, hall, rfl, rfl⟩, hstatements, rfl⟩

end ByteBricks.Template
