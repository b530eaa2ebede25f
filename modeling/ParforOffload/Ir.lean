/-
**The numba IR that the parfor lowering of numba-dppy reads and rewrites.**

`core/passes/dppy_lowerer.py` outlines the body of a parfor into a kernel.  It reads the parfor's
loop nests, copies and rewrites its loop body — a map from labels to blocks of statements, with
parfors nested inside statements to any depth — consults and extends the typemap, and records
calltypes for the statements it creates.  This module fixes the part of numba's IR that the
lowering touches, and the helpers of `numba.core.ir_utils` it calls, as the lowering uses them.

Main definitions:

* `ParforOffload.Ty`, `ParforOffload.Sig`, `ParforOffload.Typemap` — types, call signatures and
  the typemap of a function;
* `ParforOffload.Value`, `ParforOffload.Stmt` — right-hand sides and statements; `Stmt.parfor`
  carries the loop nests, init block and loop body of a nested parfor;
* `ParforOffload.Stmt.vars` — the variables `get_name_var_table` collects;
* `ParforOffload.Stmt.rename`, `ParforOffload.replaceVarNames` — `replace_var_names`;
* `ParforOffload.findSetitemsBody` — `find_setitems_body`, the arrays a loop body writes;
* `ParforOffload.mkUniqueVar`, `ParforOffload.getUnusedVarName` — numba's name generators.

Main results:

* `ParforOffload.blocksVars_renameBlocks`, `ParforOffload.findSetitemsBody_renameBlocks` —
  renaming acts on the variables, and on the written arrays, name by name;
* `ParforOffload.getUnusedVarName_not_mem` — the name `get_unused_var_name` returns is unused.
-/

import Mathlib.Data.List.Basic
import Mathlib.Data.List.Sort
import Mathlib.Algebra.Order.Ring.Nat
import Mathlib.Data.Nat.Digits
import Mathlib.Data.String.Basic

set_option autoImplicit false

namespace ParforOffload

/-- The lowerings fail with an `Except`; a bind succeeds exactly when both of its steps do. -/
theorem Except.bind_eq_ok {ε α β : Type} {x : Except ε α} {f : α → Except ε β} {r : β} :
    x >>= f = .ok r ↔ ∃ a, x = .ok a ∧ f a = .ok r := by
  cases x <;> simp [bind, Except.bind]

@[simp] theorem Except.throw_eq_error {ε α : Type} (e : ε) : (throw e : Except ε α) = .error e := rfl

@[simp] theorem Except.pure_eq_ok {ε α : Type} (a : α) : (pure a : Except ε α) = .ok a := rfl

/-! ### Types and typemaps -/

/-- The numba types the lowering tells apart: `types.npytypes.Array` with its dtype, rank and
layout; numba-dppy's `DPPYArray`, the array type that also carries an address space; any other
`types.ArrayCompatible` type (a buffer) with its dtype and rank; and every other type, by name. -/
inductive Ty where
  | scalar (name : String)
  | array (dtype : Ty) (ndim : Nat) (layout : String)
  | dppyArray (dtype : Ty) (ndim : Nat) (layout : String) (addrspace : Nat)
  | buffer (dtype : Ty) (ndim : Nat)
  deriving DecidableEq, Repr

namespace Ty

/-- `types.none`. -/
def none : Ty := scalar "none"

/-- `types.intp`. -/
def intp : Ty := scalar "intp"

/-- `types.uintp`. -/
def uintp : Ty := scalar "uintp"

/-- `isinstance(t, types.npytypes.Array)`; a `DPPYArray` is one. -/
def isArray : Ty → Bool
  | array .. | dppyArray .. => true
  | _ => false

/-- `to_scalar_from_0d`: a 0-d array-compatible type is replaced by its dtype. -/
def toScalarFrom0d : Ty → Ty
  | array dtype 0 _ => dtype
  | dppyArray dtype 0 _ _ => dtype
  | buffer dtype 0 => dtype
  | t => t

/-- A 0-d array-compatible type: the types `to_scalar_from_0d` changes. -/
def IsZeroDim : Ty → Prop
  | array _ 0 _ | dppyArray _ 0 _ _ | buffer _ 0 => True
  | _ => False

instance : DecidablePred IsZeroDim
  | scalar _ => isFalse not_false
  | array _ 0 _ => isTrue trivial
  | array _ (_ + 1) _ => isFalse not_false
  | dppyArray _ 0 _ _ => isTrue trivial
  | dppyArray _ (_ + 1) _ _ => isFalse not_false
  | buffer _ 0 => isTrue trivial
  | buffer _ (_ + 1) => isFalse not_false

theorem toScalarFrom0d_of_not_isZeroDim {t : Ty} (h : ¬ t.IsZeroDim) : t.toScalarFrom0d = t := by
  cases t with
  | array d n l => cases n <;> simp_all [IsZeroDim, toScalarFrom0d]
  | dppyArray d n l a => cases n <;> simp_all [IsZeroDim, toScalarFrom0d]
  | buffer d n => cases n <;> simp_all [IsZeroDim, toScalarFrom0d]
  | scalar _ => rfl

end Ty

/-- A typing signature `signature(return_type, *args)`. -/
structure Sig where
  ret : Ty
  args : List Ty
  deriving DecidableEq, Repr

/-- The typemap of a function: a missing name is a `KeyError`. -/
abbrev Typemap := String → Option Ty

/-- `typemap[k] = t`. -/
def Typemap.set (tm : Typemap) (k : String) (t : Ty) : Typemap := Function.update tm k (some t)

@[simp] theorem Typemap.set_same (tm : Typemap) (k : String) (t : Ty) : tm.set k t k = some t := by
  simp [Typemap.set]

theorem Typemap.set_ne (tm : Typemap) {k x : String} (t : Ty) (h : x ≠ k) : tm.set k t x = tm x := by
  simp [Typemap.set, h]

/-! ### Statements -/

/-- A loop bound of a `LoopNest`: a variable or an integer constant. -/
inductive Bound where
  | var (name : String)
  | const (n : Int)
  deriving DecidableEq, Repr

/-- One dimension of a parfor, `LoopNest(index_variable, start, stop, step)`. -/
structure LoopNest where
  indexVariable : String
  start : Bound
  stop : Bound
  step : Bound
  deriving DecidableEq, Repr

/-- The right-hand side of an `ir.Assign`, with the variables it reads. -/
inductive Value where
  | var (name : String)
  | const (n : Int)
  | arg (index : Nat) (name : String)
  | global (name : String)
  | getattr (value : String) (attr : String)
  | call (func : String) (args : List String) (kws : List (String × String))
  | buildTuple (items : List String)
  | expr (op : String) (args : List String)
  deriving DecidableEq, Repr

/-- The statements of a block.  The last statement of a block is its terminator (`jump`, `branch`
or `ret`); a nested parfor keeps its loop nests, init block and loop body. -/
inductive Stmt where
  | assign (target : String) (value : Value)
  | setItem (target index : String) (value : Value)
  | staticSetItem (target : String) (index : Int) (indexVar : String) (value : Value)
  | del (name : String)
  | jump (target : Nat)
  | branch (cond : String) (truebr falsebr : Nat)
  | ret (value : String)
  | parfor (loopNests : List LoopNest) (initBlock : List Stmt) (loopBody : List (Nat × List Stmt))
  | other (op : String) (args : List String)

/-- A block is its statement list. -/
abbrev Block := List Stmt

/-- A map from labels to blocks, in insertion order, as a Python dict. -/
abbrev Blocks := List (Nat × Block)

/-! ### Variables -/

/-- The variables a bound reads. -/
def Bound.vars : Bound → List String
  | .var x => [x]
  | .const _ => []

/-- The variables of a loop nest. -/
def LoopNest.vars (l : LoopNest) : List String :=
  l.indexVariable :: (l.start.vars ++ l.stop.vars ++ l.step.vars)

/-- The variables a right-hand side reads (`ir.Arg` and `ir.Global` hold names, not variables). -/
def Value.vars : Value → List String
  | .var x => [x]
  | .const _ | .arg .. | .global _ => []
  | .getattr v _ => [v]
  | .call f as kws => f :: (as ++ kws.map Prod.snd)
  | .buildTuple items => items
  | .expr _ as => as

mutual
/-- The variables of a statement, as `visit_vars` visits them. -/
def Stmt.vars : Stmt → List String
  | .assign t v => t :: v.vars
  | .setItem t i v => t :: i :: v.vars
  | .staticSetItem t _ i v => t :: i :: v.vars
  | .del x => [x]
  | .jump _ => []
  | .branch c _ _ => [c]
  | .ret x => [x]
  | .parfor ls init body => ls.flatMap LoopNest.vars ++ blockVars init ++ blocksVars body
  | .other _ as => as

/-- The variables of a block. -/
def blockVars : Block → List String
  | [] => []
  | s :: ss => s.vars ++ blockVars ss

/-- The variables of a map of blocks: `get_name_var_table`. -/
def blocksVars : Blocks → List String
  | [] => []
  | (_, b) :: bs => blockVars b ++ blocksVars bs
end

@[simp] theorem blockVars_append (b₁ b₂ : Block) :
    blockVars (b₁ ++ b₂) = blockVars b₁ ++ blockVars b₂ := by
  induction b₁ with
  | nil => rfl
  | cons s ss ih => simp [blockVars, ih]

/-! ### Renaming -/

/-- Rename the variable of a bound. -/
def Bound.rename (f : String → String) : Bound → Bound
  | .var x => .var (f x)
  | .const n => .const n

/-- Rename the variables of a loop nest. -/
def LoopNest.rename (f : String → String) (l : LoopNest) : LoopNest :=
  ⟨f l.indexVariable, l.start.rename f, l.stop.rename f, l.step.rename f⟩

/-- Rename the variables a right-hand side reads. -/
def Value.rename (f : String → String) : Value → Value
  | .var x => .var (f x)
  | .const n => .const n
  | .arg i n => .arg i n
  | .global n => .global n
  | .getattr v a => .getattr (f v) a
  | .call g as kws => .call (f g) (as.map f) (kws.map fun p => (p.1, f p.2))
  | .buildTuple items => .buildTuple (items.map f)
  | .expr op as => .expr op (as.map f)

mutual
/-- Rename every variable of a statement, nested parfors included (`visit_vars`). -/
def Stmt.rename (f : String → String) : Stmt → Stmt
  | .assign t v => .assign (f t) (v.rename f)
  | .setItem t i v => .setItem (f t) (f i) (v.rename f)
  | .staticSetItem t n i v => .staticSetItem (f t) n (f i) (v.rename f)
  | .del x => .del (f x)
  | .jump l => .jump l
  | .branch c t e => .branch (f c) t e
  | .ret x => .ret (f x)
  | .parfor ls init body => .parfor (ls.map (LoopNest.rename f)) (renameBlock f init)
      (renameBlocks f body)
  | .other op as => .other op (as.map f)

/-- Rename every variable of a block. -/
def renameBlock (f : String → String) : Block → Block
  | [] => []
  | s :: ss => s.rename f :: renameBlock f ss

/-- Rename every variable of a map of blocks. -/
def renameBlocks (f : String → String) : Blocks → Blocks
  | [] => []
  | (l, b) :: bs => (l, renameBlock f b) :: renameBlocks f bs
end

@[simp] theorem Bound.vars_rename (f : String → String) (b : Bound) :
    (b.rename f).vars = b.vars.map f := by
  cases b <;> rfl

@[simp] theorem LoopNest.vars_rename (f : String → String) (l : LoopNest) :
    (l.rename f).vars = l.vars.map f := by
  simp [LoopNest.rename, LoopNest.vars]

@[simp] theorem Value.vars_rename (f : String → String) (v : Value) :
    (v.rename f).vars = v.vars.map f := by
  cases v <;> simp [Value.rename, Value.vars]

@[simp] theorem Bound.rename_rename (f g : String → String) (b : Bound) :
    (b.rename g).rename f = b.rename (f ∘ g) := by
  cases b <;> rfl

@[simp] theorem LoopNest.rename_rename (f g : String → String) (l : LoopNest) :
    (l.rename g).rename f = l.rename (f ∘ g) := by
  simp [LoopNest.rename]

@[simp] theorem Value.rename_rename (f g : String → String) (v : Value) :
    (v.rename g).rename f = v.rename (f ∘ g) := by
  cases v <;> simp [Value.rename, Function.comp_def]

/-- Renaming twice is renaming by the composite. -/
theorem renameBlocks_renameBlocks (f g : String → String) (bs : Blocks) :
    renameBlocks f (renameBlocks g bs) = renameBlocks (f ∘ g) bs := by
  induction bs using blocksVars.induct
    (motive_1 := fun s => (s.rename g).rename f = s.rename (f ∘ g))
    (motive_3 := fun b => renameBlock f (renameBlock g b) = renameBlock (f ∘ g) b) with
  | case8 ls init body ih₁ ih₂ => simp [Stmt.rename, ih₁, ih₂, Function.comp_def]
  | case11 s ss ih₁ ih₂ => simp [renameBlock, ih₁, ih₂]
  | case13 l b bs ih₁ ih₂ => simp [renameBlocks, ih₁, ih₂]
  | _ => simp [Stmt.rename, renameBlock, renameBlocks, Function.comp_def]

/-- `replace_var_names`' inner `replace_name`: while the name is a key of the dictionary, replace
it by its value.  The chain is followed at most `fuel` times; the lowering passes the size of the
dictionary, which is enough for a dictionary without cycles (on a cycle Python does not stop). -/
def replaceName (d : List (String × String)) : Nat → String → String
  | 0, x => x
  | fuel + 1, x =>
      match d.lookup x with
      | some y => replaceName d fuel y
      | none => x

/-- `replace_var_names(blocks, namedict)`: drop the identity pairs, then rename every variable by
`replace_name`. -/
def replaceVarNames (bs : Blocks) (namedict : List (String × String)) : Blocks :=
  let d := namedict.filter fun p => p.1 ≠ p.2
  renameBlocks (replaceName d d.length) bs

/-- With no key among the values, `replace_name` makes at most one replacement. -/
theorem replaceName_eq_of_values {d : List (String × String)}
    (h : ∀ x y, d.lookup x = some y → d.lookup y = none) (fuel : Nat) (x : String) :
    replaceName d (fuel + 1) x = (d.lookup x).getD x := by
  cases hx : d.lookup x with
  | none => simp [replaceName, hx]
  | some y => cases fuel <;> simp [replaceName, hx, h x y hx]

/-! ### Written arrays -/

mutual
/-- The arrays one statement of `find_setitems_block` adds: the target of a `SetItem` or a
`StaticSetItem`, and everything a nested parfor's init block and loop body write. -/
def findSetitemsStmt : Stmt → List String
  | .setItem t _ _ => [t]
  | .staticSetItem t _ _ _ => [t]
  | .parfor _ init body => findSetitemsBlock init ++ findSetitemsBody body
  | _ => []

/-- `find_setitems_block`. -/
def findSetitemsBlock : Block → List String
  | [] => []
  | s :: ss => findSetitemsStmt s ++ findSetitemsBlock ss

/-- `find_setitems_body`: the arrays a loop body writes into. -/
def findSetitemsBody : Blocks → List String
  | [] => []
  | (_, b) :: bs => findSetitemsBlock b ++ findSetitemsBody bs
end

@[simp] theorem findSetitemsBlock_append (b₁ b₂ : Block) :
    findSetitemsBlock (b₁ ++ b₂) = findSetitemsBlock b₁ ++ findSetitemsBlock b₂ := by
  induction b₁ with
  | nil => rfl
  | cons s ss ih => simp [findSetitemsBlock, ih]

/-- **Renaming renames the written arrays name by name.** -/
theorem findSetitemsBody_renameBlocks (f : String → String) (bs : Blocks) :
    findSetitemsBody (renameBlocks f bs) = (findSetitemsBody bs).map f := by
  induction bs using blocksVars.induct
    (motive_1 := fun s => findSetitemsStmt (s.rename f) = (findSetitemsStmt s).map f)
    (motive_3 := fun b => findSetitemsBlock (renameBlock f b) = (findSetitemsBlock b).map f) with
  | case8 ls init body ih₁ ih₂ => simp [Stmt.rename, findSetitemsStmt, ih₁, ih₂]
  | case11 s ss ih₁ ih₂ => simp [renameBlock, findSetitemsBlock, ih₁, ih₂]
  | case13 l b bs ih₁ ih₂ => simp [renameBlocks, findSetitemsBody, ih₁, ih₂]
  | _ => simp [Stmt.rename, findSetitemsStmt, renameBlock, findSetitemsBlock, renameBlocks,
      findSetitemsBody]

/-! ### Fresh names -/

/-- `mk_unique_var(prefix)` of numba: the prefix, a dot and the value of a global counter, which
it then increments. -/
def mkUniqueVar (pfx : String) (counter : Nat) : String := pfx ++ "." ++ toString counter

/-- The value of a list of decimal digits, most significant first. -/
def decimalValue (ds : List Char) : Nat := ds.foldl (fun acc c => 10 * acc + (c.toNat - 48)) 0

theorem toDigitsCore_ten_append (fuel n : Nat) (ds : List Char) :
    Nat.toDigitsCore 10 fuel n ds = Nat.toDigitsCore 10 fuel n [] ++ ds := by
  induction fuel generalizing n ds with
  | zero => rfl
  | succ fuel ih =>
      simp only [Nat.toDigitsCore]
      split
      · rfl
      · rw [ih _ (_ :: ds), ih _ [_]]
        simp

theorem digitChar_value : ∀ k, k < 10 → (Nat.digitChar k).toNat - 48 = k := by
  decide

theorem decimalValue_toDigitsCore (fuel n : Nat) (h : n < fuel) :
    decimalValue (Nat.toDigitsCore 10 fuel n []) = n := by
  induction fuel generalizing n with
  | zero => omega
  | succ fuel ih =>
      have hd := digitChar_value _ (Nat.mod_lt n (show 10 > 0 by omega))
      simp only [Nat.toDigitsCore]
      split
      · simp only [decimalValue, List.foldl, hd]
        omega
      · rw [toDigitsCore_ten_append, decimalValue, List.foldl_append, ← decimalValue,
          ih _ (by omega)]
        simp only [List.foldl, hd]
        omega

/-- Decimal rendering of naturals is injective. -/
theorem toString_injective : Function.Injective (toString : Nat → String) := by
  intro a b h
  have hd : Nat.toDigits 10 a = Nat.toDigits 10 b := congrArg String.data h
  rw [← decimalValue_toDigitsCore (a + 1) a (by omega),
    ← decimalValue_toDigitsCore (b + 1) b (by omega)]
  exact congrArg decimalValue hd

theorem append_toString_injective (pfx : String) :
    Function.Injective fun n : Nat => pfx ++ toString n := by
  intro a b h
  apply toString_injective
  have : pfx.data ++ (toString a).data = pfx.data ++ (toString b).data := congrArg String.data h
  exact String.ext (List.append_cancel_left this)

/-- The search of `get_unused_var_name` from the candidate `cur`, looking at `fuel` candidates. -/
def getUnusedVarNameFrom (pfx : String) (table : List String) : Nat → Nat → String
  | 0, cur => pfx ++ toString cur
  | fuel + 1, cur =>
      if pfx ++ toString cur ∈ table then getUnusedVarNameFrom pfx table fuel (cur + 1)
      else pfx ++ toString cur

/-- `get_unused_var_name(prefix, var_table)`: the first of `prefix + str(0)`, `prefix + str(1)`,
… that is not in the table.  Looking at `var_table.length` candidates is enough
(`getUnusedVarName_not_mem`). -/
def getUnusedVarName (pfx : String) (table : List String) : String :=
  getUnusedVarNameFrom pfx table table.length 0

/-- `isinstance(stmt, ir.Del)`. -/
def Stmt.isDel : Stmt → Bool
  | .del _ => true
  | _ => false

/-- `remove_dels`: drop the `ir.Del` statements of every block. -/
def removeDels (bs : Blocks) : Blocks :=
  bs.map fun p => (p.1, p.2.filter fun s => !s.isDel)

/-- `remove_dels` keeps every written array. -/
@[simp] theorem findSetitemsBody_removeDels (bs : Blocks) :
    findSetitemsBody (removeDels bs) = findSetitemsBody bs := by
  have hb : ∀ b : Block,
      findSetitemsBlock (b.filter fun s => !s.isDel) = findSetitemsBlock b := by
    intro b
    induction b with
    | nil => rfl
    | cons s ss ih =>
        cases s
        case del => exact ih
        all_goals exact congrArg (findSetitemsStmt _ ++ ·) ih
  induction bs with
  | nil => rfl
  | cons p bs ih => simp [removeDels, findSetitemsBody, hb] at ih ⊢; exact ih

end ParforOffload
