import ByteBricks.Execution.Run
import ByteBricks.Proofs.Syntax.Places

/-! # Changing Lines

  A line is only told to whoever reads about an error: what an execution computes does not
  depend on the lines of its nodes. Each function that is told a line does the same when it
  is told another one, and what stops it is then reported on that line. -/

namespace ByteBricks.Execution

open Template (Access)

variable {α β γ δ : Type} (φ : Nat → Nat)

/-- The halt on the line that stands for its own. -/
def Halt.relined (φ : Nat → Nat) : Halt → Halt
  | .failed e => .failed { e with line := φ e.line }
  | .broken breach => .broken breach

/-- What is computed, changed by `f`, or what stops the computation, on another line. -/
def relined (φ : Nat → Nat) (f : α → β) : Except Halt α → Except Halt β :=
  bimap (Halt.relined φ) f

variable {φ} in
theorem relined_bind {f : α → β} {g : γ → δ} {x : Except Halt α} {y : Except Halt β}
    {k : α → Except Halt γ} {k' : β → Except Halt δ} (hx : y = relined φ f x)
    (hk : ∀ a, k' (f a) = relined φ g (k a)) :
    (y >>= k') = relined φ g (x >>= k) :=
  bimap_bind hx hk

theorem relined_require (line : Nat) (fault : Fault) (o : Option α) :
    require (φ line) fault o = relined φ id (require line fault o) := by
  cases o <;> rfl

theorem relined_assured (breach : Breach) (o : Option α) :
    assured breach o = relined φ id (assured breach o) := by
  cases o <;> rfl

/-! ### Reading -/

theorem checkBounds_relined (view : View) (line : Nat) (name : String) (start stop : Int64) :
    checkBounds view (φ line) name start stop =
      relined φ id (checkBounds view line name start stop) := by
  unfold checkBounds
  split <;> rfl

theorem read_relined (data : Data) (line : Nat) (name : String) (t : Primitive) (offset : Int64) :
    data.read (φ line) name t offset = relined φ id (data.read line name t offset) := by
  unfold Data.read
  refine relined_bind (checkBounds_relined φ _ line name _ _) fun _ => ?_
  refine relined_bind (relined_assured φ _ _) fun start => ?_
  dsimp only [id]
  cases data.view.read start t.size with
  | error e => rfl
  | ok bytes =>
    refine relined_bind (f := id) rfl fun bytes => ?_
    refine relined_bind (relined_require φ line _ _) fun number => ?_
    dsimp only [id]
    cases Value.ofNumber number <;> rfl

theorem elementOffset_relined (f : Field) (line : Nat) (t : Primitive) (index : Int64) :
    f.elementOffset (φ line) t index = relined φ id (f.elementOffset line t index) := by
  unfold Field.elementOffset
  split
  · exact relined_require φ line _ _
  · rfl

theorem primitive_relined (f : Field) (line : Nat) :
    f.primitive (φ line) = relined φ id (f.primitive line) := by
  unfold Field.primitive
  cases f.element <;> rfl

theorem integer_relined (line : Nat) (v : Value) :
    v.integer (φ line) = relined φ id (v.integer line) := by
  cases v <;> rfl

/-! ### Stores -/

theorem layout_relined (s : Store) (i : Nat) : s.layout i = relined φ id (s.layout i) :=
  relined_assured φ _ _

theorem locate_relined (s : Store) (line : Nat) (a : Access) :
    s.locate (φ line) a = relined φ id (s.locate line a) := by
  cases a with
  | field name => exact relined_require φ line _ _
  | member owner part =>
    unfold Store.locate
    refine relined_bind (relined_require φ line _ _) fun parent => ?_
    dsimp only [id]
    cases parent.element with
    | primitive t => rfl
    | struct i =>
      refine relined_bind (layout_relined φ s i) fun l => ?_
      refine relined_bind (relined_require φ line _ _) fun m => ?_
      refine relined_bind (relined_assured φ _ _) fun start => ?_
      rfl

theorem elementSize_relined (s : Store) (e : Element) :
    s.elementSize e = relined φ id (s.elementSize e) := by
  cases e with
  | primitive t => rfl
  | struct i => exact relined_bind (layout_relined φ s i) fun l => rfl

theorem element_relined (s : Store) (line : Nat) (name : String) :
    s.element (φ line) name = relined φ id (s.element line name) := by
  unfold Store.element
  cases Primitive.ofName? name with
  | some t => rfl
  | none => exact relined_bind (relined_require φ line _ _) fun i => rfl

/-! ### Bricks -/

theorem memberBricks_relined (s : Store) (w : Wall) (name : String) (e : Extent)
    (start : Int64) : memberBricks s w name e start =
      relined φ id (memberBricks s w name e start) := by
  have hbrick : memberBrick s w name e start = relined φ id (memberBrick s w name e start) := by
    unfold memberBrick
    cases e.element with
    | primitive t => rfl
    | struct i => exact relined_bind (layout_relined φ s i) fun l => rfl
  unfold memberBricks
  split
  · rfl
  · exact relined_bind hbrick fun b => rfl

theorem obtainDefinition_relined (w : Wall) (line : Nat) (struct : String)
    (members : List Brick) : obtainDefinition w (φ line) struct members =
      relined φ id (obtainDefinition w line struct members) := by
  unfold obtainDefinition
  cases reusable? w struct members with
  | some i => rfl
  | none => exact relined_bind (relined_require φ line _ _) fun extended => rfl

theorem insertField_relined (s : Store) (w : Wall) (line : Nat) (name : String) (e : Extent)
    (start : Int64) : insertField s w (φ line) name e start =
      relined φ id (insertField s w line name e start) := by
  unfold insertField
  cases e.element with
  | primitive t => rfl
  | struct i =>
    dsimp only
    split
    · exact relined_bind (layout_relined φ s i) fun l => rfl
    · rfl

end ByteBricks.Execution
