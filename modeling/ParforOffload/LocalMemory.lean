/-
**The local-memory pass: compile-time sizes of `numba_dppy.local.array`.**

`DPPYConstantSizeStaticLocalMemoryPass.run_pass` takes the blocks of a kernel's IR from the end of
a work list and scans the instructions of each.  At a call `f(args, kws)` whose function `f` the
block assigns `getattr(x, "array")`, with `x` assigned `getattr(_, "local")`, it reads the shape
argument — the `shape` keyword, else the first positional argument — and looks up its definition:
an expression is taken for a tuple, whose items must all be `ir.Const`; anything else must itself
be an `ir.Const`.  A non-constant tuple item raises.  A non-constant scalar shape sets the error
flag and then `break`s out of the instruction loop, before the flag is looked at: the pass
accepts the call and checks nothing else of that block.

Main definitions:

* `ParforOffload.checkInstr` — the body of the instruction loop, which goes on, breaks or raises;
* `ParforOffload.scanBlock`, `ParforOffload.runPass` — the loop over a block, and the pass.

Main results:

* `ParforOffload.runPass_of_constShapes` — the pass accepts every kernel whose local arrays have
  constant shapes;
* `ParforOffload.runPass_scalar_size` — a kernel whose local array has the size of an argument
  passes, and so does a non-constant tuple after it.
-/

import ParforOffload.Ir

set_option autoImplicit false

namespace ParforOffload

/-! ### numba's IR lookups -/

/-- What `run_pass` can raise. -/
inductive PassError where
  /-- `get_definition` of a name with no definition, or with more than one. -/
  | keyError (name : String)
  /-- The `.value` of a lookup that found nothing, or the `.items` of an expression that has
  none. -/
  | attributeError (attr : String)
  /-- `expr.args[0]` of a call without positional arguments. -/
  | indexError
  /-- The warning "The size of the Local memory has to be constant", then a bare `raise`. -/
  | localMemoryNotConstant
  /-- A cycle of variable-to-variable definitions, which `get_definition` follows forever. -/
  | definitionCycle
  deriving DecidableEq, Repr

/-- The value a statement assigns to `name`, if it is an assignment to `name`. -/
def Stmt.assignedValue (name : String) : Stmt → Option Value
  | .assign t v => if t = name then some v else none
  | _ => none

/-- numba's `block.find_variable_assignment(name)`: the first assignment to `name` in the block
(here, its value). -/
def findVariableAssignment (block : Block) (name : String) : Option Value :=
  block.findSome? (Stmt.assignedValue name)

/-- numba's `func_ir._definitions[name]`: every value assigned to `name`, over all blocks. -/
def definitions (blocks : Blocks) (name : String) : List Value :=
  blocks.flatMap fun b => b.2.filterMap (Stmt.assignedValue name)

/-- numba's `func_ir.get_definition(name)`: the unique definition of `name`, followed through
assignments of one variable to another.  `fuel` bounds the chain; a chain longer than the number
of statements goes round a cycle. -/
def getDefinition (blocks : Blocks) : Nat → String → Except PassError Value
  | fuel, name =>
      match definitions blocks name, fuel with
      | [.var y], fuel + 1 => getDefinition blocks fuel y
      | [.var _], 0 => .error .definitionCycle
      | [v], _ => .ok v
      | _, _ => .error (.keyError name)

/-- `isinstance(v, ir.Expr)`. -/
def Value.isExpr : Value → Bool
  | .getattr .. | .call .. | .buildTuple _ | .expr .. => true
  | _ => false

/-- `isinstance(v, ir.Const)`. -/
def Value.isConst : Value → Bool
  | .const _ => true
  | _ => false

/-- The `items` of an expression: those of a `build_tuple`, `build_list` or `build_set`; other
expressions have no such attribute. -/
def Value.items? : Value → Option (List String)
  | .buildTuple items => some items
  | .expr op args => if op = "build_list" ∨ op = "build_set" then some args else none
  | _ => none

/-! ### The pass -/

/-- The control of the instruction loop after one instruction. -/
inductive Flow where
  | next
  | brk
  deriving DecidableEq, Repr

/-- The shape argument of the call: the last `shape` keyword, else the first positional
argument. -/
def shapeArg (args : List String) (kws : List (String × String)) : Except PassError String :=
  match (kws.filter (·.1 = "shape")).getLast?, args with
  | some kw, _ => .ok kw.2
  | none, a :: _ => .ok a
  | none, [] => .error .indexError

/-- `for item in arg_type.items: if not isinstance(get_definition(item), ir.Const): error = True;
break`: whether some item, up to the first non-constant one, is not constant. -/
def itemsNotConst (blocks : Blocks) (fuel : Nat) : List String → Except PassError Bool
  | [] => .ok false
  | i :: is => do
      let d ← getDefinition blocks fuel i
      if d.isConst then itemsNotConst blocks fuel is else pure true

/-- The check of the shape argument `arg` of a local-array call. -/
def checkShape (blocks : Blocks) (fuel : Nat) (arg : String) : Except PassError Flow := do
  let argType ← getDefinition blocks fuel arg
  if argType.isExpr then
    match argType.items? with
    | none => .error (.attributeError "items")
    | some items =>
        let error ← itemsNotConst blocks fuel items
        if error then .error .localMemoryNotConstant else pure .next
  else
    let d ← getDefinition blocks fuel arg
    -- `error = True; break`: the loop is left before `if error:` is reached
    if d.isConst then pure .next else pure .brk

/-- The body of the instruction loop of `run_pass`, at one instruction of `block`. -/
def checkInstr (blocks : Blocks) (fuel : Nat) (block : Block) : Stmt → Except PassError Flow
  | .assign _ (.call f args kws) =>
      match findVariableAssignment block f with
      | some (.getattr x attr) =>
          if attr = "array" then
            match findVariableAssignment block x with
            | none => .error (.attributeError "value")
            | some (.getattr _ attr') =>
                if attr' = "local" then shapeArg args kws >>= checkShape blocks fuel
                else pure .next
            | some _ => pure .next
          else pure .next
      | _ => pure .next
  | _ => pure .next

/-- `for i, instr in enumerate(block.body)`: each instruction checked in order, until one breaks
or raises. -/
def scanBlock (blocks : Blocks) (fuel : Nat) (block : Block) : List Stmt → Except PassError Unit
  | [] => .ok ()
  | s :: rest => do
      match ← checkInstr blocks fuel block s with
      | .next => scanBlock blocks fuel block rest
      | .brk => pure ()

/-- The bound on `get_definition`'s chains: the number of statements. -/
def passFuel (blocks : Blocks) : Nat := (blocks.flatMap (·.2)).length

/-- `run_pass`: the blocks popped from the end of the work list, each scanned. -/
def runPass (blocks : Blocks) : Except PassError Unit :=
  blocks.reverse.forM fun b => scanBlock blocks (passFuel blocks) b.2 b.2

/-! ### What the pass accepts -/

/-- A shape argument as the pass's comment asks for it: "arg can be one constant or a tuple of
constant items". -/
def ConstShape (blocks : Blocks) (fuel : Nat) (arg : String) : Prop :=
  (∃ c, getDefinition blocks fuel arg = .ok (.const c)) ∨
    ∃ v items, getDefinition blocks fuel arg = .ok v ∧ v.isExpr = true ∧ v.items? = some items ∧
      ∀ i ∈ items, ∃ c, getDefinition blocks fuel i = .ok (.const c)

/-- An instruction of `block` the pass has nothing against: a call through an `array` attribute
of an object the block assigns, with a constant shape argument when that object is the `local`
attribute of something. -/
def LocalArrayOK (blocks : Blocks) (fuel : Nat) (block : Block) : Stmt → Prop
  | .assign _ (.call f args kws) =>
      ∀ x, findVariableAssignment block f = some (.getattr x "array") →
        findVariableAssignment block x ≠ none ∧
          ∀ m, findVariableAssignment block x = some (.getattr m "local") →
            ∃ arg, shapeArg args kws = .ok arg ∧ ConstShape blocks fuel arg
  | _ => True

theorem itemsNotConst_of_const {blocks : Blocks} {fuel : Nat} :
    ∀ {items : List String}, (∀ i ∈ items, ∃ c, getDefinition blocks fuel i = .ok (.const c)) →
      itemsNotConst blocks fuel items = .ok false
  | [], _ => rfl
  | i :: is, h => by
      obtain ⟨c, hc⟩ := h i (List.mem_cons_self _ _)
      simp only [itemsNotConst, hc, bind, Except.bind, Value.isConst, if_true]
      exact itemsNotConst_of_const fun j hj => h j (List.mem_cons_of_mem _ hj)

theorem checkShape_of_constShape {blocks : Blocks} {fuel : Nat} {arg : String}
    (h : ConstShape blocks fuel arg) : checkShape blocks fuel arg = .ok .next := by
  rcases h with ⟨c, hc⟩ | ⟨v, items, hv, hx, hi, hc⟩
  · simp [checkShape, hc, bind, Except.bind, Value.isExpr, Value.isConst, pure, Except.pure]
  · simp [checkShape, hv, hx, hi, itemsNotConst_of_const hc, bind, Except.bind, pure, Except.pure]

/-- One instruction the pass has nothing against does not raise. -/
theorem checkInstr_of_localArrayOK {blocks : Blocks} {fuel : Nat} {block : Block} {s : Stmt}
    (h : LocalArrayOK blocks fuel block s) : ∃ fl, checkInstr blocks fuel block s = .ok fl := by
  unfold checkInstr
  split
  · rename_i f args kws
    split
    · rename_i x attr hf
      split_ifs with ha
      · subst ha
        obtain ⟨hx, hloc⟩ := h x hf
        split
        · contradiction
        · rename_i m attr' hm
          split_ifs with ha'
          · subst ha'
            obtain ⟨arg, harg, hc⟩ := hloc m hm
            exact ⟨.next, by simp [harg, checkShape_of_constShape hc, bind, Except.bind]⟩
          · exact ⟨_, rfl⟩
        · exact ⟨_, rfl⟩
      · exact ⟨_, rfl⟩
    · exact ⟨_, rfl⟩
  · exact ⟨_, rfl⟩

/-- A block of such instructions is scanned without raising. -/
theorem scanBlock_of_localArrayOK {blocks : Blocks} {fuel : Nat} {block : Block} :
    ∀ {stmts : List Stmt}, (∀ s ∈ stmts, LocalArrayOK blocks fuel block s) →
      scanBlock blocks fuel block stmts = .ok ()
  | [], _ => rfl
  | s :: rest, h => by
      obtain ⟨fl, hfl⟩ := checkInstr_of_localArrayOK (h s (List.mem_cons_self _ _))
      cases fl <;> simp only [scanBlock, hfl, bind, Except.bind]
      · exact scanBlock_of_localArrayOK fun t ht => h t (List.mem_cons_of_mem _ ht)
      · rfl

theorem forM_eq_ok {α ε : Type} {l : List α} {f : α → Except ε Unit} :
    l.forM f = .ok () ↔ ∀ a ∈ l, f a = .ok () := by
  induction l with
  | nil => simp [pure, Except.pure]
  | cons a l ih => cases h : f a <;> simp [h, ih, bind, Except.bind]

/-- The pass succeeds iff the scan of every block does. -/
theorem runPass_eq_ok (blocks : Blocks) :
    runPass blocks = .ok () ↔ ∀ b ∈ blocks, scanBlock blocks (passFuel blocks) b.2 b.2 = .ok () := by
  rw [runPass, forM_eq_ok]
  simp only [List.mem_reverse]

/-- **The pass accepts constant local arrays.**  A kernel each of whose blocks assigns the objects
of its `array` attribute calls, and gives each of its `numba_dppy.local.array` calls a shape that is
a constant or a tuple of constants, passes. -/
theorem runPass_of_constShapes {blocks : Blocks}
    (h : ∀ b ∈ blocks, ∀ s ∈ b.2, LocalArrayOK blocks (passFuel blocks) b.2 s) :
    runPass blocks = .ok () :=
  (runPass_eq_ok blocks).2 fun b hb => scanBlock_of_localArrayOK (h b hb)

/-- A kernel block `a = numba_dppy.local.array(4)` followed by
`b = numba_dppy.local.array((4, 4))`. -/
def constLocalBlock : Block :=
  [.assign "$0" (.global "numba_dppy"), .assign "$1" (.getattr "$0" "local"),
    .assign "$2" (.getattr "$1" "array"), .assign "$c" (.const 4),
    .assign "a" (.call "$2" ["$c"] []), .assign "$3" (.buildTuple ["$c", "$c"]),
    .assign "b" (.call "$2" ["$3"] []), .ret "b"]

theorem runPass_of_constShapes_constLocalBlock :
    (∀ b ∈ [(0, constLocalBlock)], ∀ s ∈ b.2,
        LocalArrayOK [(0, constLocalBlock)] (passFuel [(0, constLocalBlock)]) b.2 s) ∧
      runPass [(0, constLocalBlock)] = .ok () :=
  have h : ∀ b ∈ [(0, constLocalBlock)], ∀ s ∈ b.2,
      LocalArrayOK [(0, constLocalBlock)] (passFuel [(0, constLocalBlock)]) b.2 s := by
    simp only [List.mem_singleton, forall_eq, constLocalBlock, List.mem_cons, List.mem_nil_iff,
      or_false, forall_eq_or_imp]
    refine ⟨trivial, trivial, trivial, trivial, ?_, trivial, ?_, trivial⟩ <;> rintro x hx <;>
      cases hx <;> refine ⟨by decide, fun m hm => ?_⟩ <;> cases hm
    · exact ⟨"$c", rfl, .inl ⟨4, rfl⟩⟩
    · exact ⟨"$3", rfl, .inr ⟨_, _, rfl, rfl, rfl, fun i hi => by simp at hi; subst hi; exact ⟨4, rfl⟩⟩⟩
  ⟨h, runPass_of_constShapes h⟩

/-- A kernel block `a = numba_dppy.local.array(n)` with `n` an argument, followed by
`b = numba_dppy.local.array((n, n))`. -/
def localArrayBlock : Block :=
  [.assign "$0" (.global "numba_dppy"), .assign "$1" (.getattr "$0" "local"),
    .assign "$2" (.getattr "$1" "array"), .assign "n" (.arg 0 "n"),
    .assign "a" (.call "$2" ["n"] []), .assign "$3" (.buildTuple ["n", "n"]),
    .assign "b" (.call "$2" ["$3"] []), .ret "b"]

/-- The pass accepts `localArrayBlock`, though `a`'s size `n` is an argument and `b`'s tuple is
not constant either; without the call of `a`, the call of `b` is rejected. -/
theorem runPass_scalar_size :
    getDefinition [(0, localArrayBlock)] 8 "n" = .ok (.arg 0 "n") ∧
      runPass [(0, localArrayBlock)] = .ok () ∧
      runPass [(0, localArrayBlock.eraseIdx 4)] = .error .localMemoryNotConstant :=
  ⟨rfl, rfl, rfl⟩

end ParforOffload
