import ByteBricks.Builtin
import ByteBricks.Proofs.Syntax.Builder

/-! # Compilers

  A compiler keeps its store of cells from one source to the next. What a source leaves behind
  in it, whether its template was made or it failed half way, is a store like any other, and
  clearing it makes it the empty store. Main statement: every source is compiled as by a compiler
  that has read nothing, which gives the template of the source. -/

namespace ByteBricks.Compiler

open BlockStore (sound_empty)

variable {c : Compiler}

/-- Every source is read into an empty store. -/
theorem compile_eq (hc : c.cells.Sound) (source : String) :
    c.compile source =
      (⟨(Syntax.Cells.read .empty (Token.scan source)).1⟩,
        Template.ofReading (Syntax.Cells.read .empty (Token.scan source)).2) := by
  unfold compile
  rw [hc.clear]

/-- A source is compiled to its template. -/
theorem compile_snd (hc : c.cells.Sound) (source : String) :
    (c.compile source).2 = Template.compile source := by
  rw [compile_eq hc, (Syntax.Cells.read_empty (Token.scan source)).1]
  rfl

/-- A store that stands for a list is left behind. -/
theorem sound_compile (hc : c.cells.Sound) (source : String) :
    (c.compile source).1.cells.Sound := by
  rw [compile_eq hc]
  exact (Syntax.Cells.read_empty (Token.scan source)).2

/-- Nothing of what was read before is left. -/
theorem compile_eq_new (hc : c.cells.Sound) (source : String) :
    c.compile source = new.compile source := by
  have hnew : new.compile source = _ := compile_eq sound_empty source
  rw [compile_eq hc, hnew]

/-- The compiler after it has compiled sources one after the other. -/
def after (sources : List String) : Compiler :=
  sources.foldl (fun c source => (c.compile source).1) new

theorem sound_after (sources : List String) : (after sources).cells.Sound := by
  have hfoldl : ∀ c : Compiler, c.cells.Sound →
      (sources.foldl (fun c source => (c.compile source).1) c).cells.Sound := by
    induction sources with
    | nil => exact fun _ hc => hc
    | cons source sources ih => exact fun c hc => ih _ (sound_compile hc source)
  exact hfoldl new sound_empty

theorem compileAll_of_sound (hc : c.cells.Sound) (sources : List String) :
    c.compileAll sources = sources.map Template.compile := by
  induction sources generalizing c with
  | nil => rfl
  | cons source sources ih =>
    have hresult : c.compileAll (source :: sources) =
        (c.compile source).2 :: (c.compile source).1.compileAll sources := rfl
    rw [hresult, compile_snd hc, ih (sound_compile hc source), List.map_cons]

/-- **Main theorem.** A compiler that is used for one source after the other gives for each the
    template of that source alone, or its error. Behind any sources it compiles the next one, and
    stores its cells, as a new one does. -/
theorem compile_reused (sources : List String) :
    new.compileAll sources = sources.map (fun source => (new.compile source).2) ∧
    ∀ source, (after sources).compile source = new.compile source ∧
      (new.compile source).2 = Template.compile source := by
  have hnew : ∀ source, (new.compile source).2 = Template.compile source := compile_snd sound_empty
  refine ⟨?_, fun source => ⟨compile_eq_new (sound_after sources) source, hnew source⟩⟩
  rw [funext hnew]
  exact compileAll_of_sound sound_empty sources

end ByteBricks.Compiler

namespace ByteBricks.Builtin

open Compiler

theorem compileFrom_eq {c : Compiler} (hc : c.cells.Sound) (named : List (String × String)) :
    compileFrom c named = named.mapM fun p => withName p.1 (Template.compile p.2) := by
  induction named generalizing c with
  | nil => rfl
  | cons head named ih =>
    obtain ⟨name, source⟩ := head
    have hstep : compileFrom c ((name, source) :: named) = (do
        let template ← withName name (c.compile source).2
        let templates ← compileFrom (c.compile source).1 named
        pure (template :: templates)) := rfl
    rw [hstep, compile_snd hc, ih (sound_compile hc source), List.mapM_cons]

/-- One compiler gives every built-in template as a compiler of its own does. -/
theorem templates_eq :
    templates = sources.mapM fun p => withName p.1 (Template.compile p.2) :=
  compileFrom_eq BlockStore.sound_empty sources

end ByteBricks.Builtin
