/-
**The schedule of the kernel stub: `_schedule_loop`.**

`_create_gufunc_for_parfor_body` writes the kernel stub as Python text: a `def` line, the text of
`_schedule_loop`, the assignment of `0` to the sentinel and `return None`, each of the last two
indented by four spaces.  `_schedule_loop` binds the first (at most three) loop indices to
`dppy.get_global_id(d)`, and writes a `for` loop for each further dimension, indented one level
deeper than the one before, iterating `range(start, stop + 1)`; it then appends, for each of those
loops, as many levels of indentation again, without a line break, so that the sentinel assignment
that follows is indented deeper than the innermost loop.

The text is read as Python reads it: split into physical lines, blank lines dropped, the
indentation of each measured and its characters split into tokens; the block structure follows
from the indentation, and the statements from the tokens.  A small interpreter then runs the
stub's body for one work-item.

Main definitions:

* `ParforOffload.scheduleLoop`, `ParforOffload.gufuncTxt` — the text of the stub;
* `ParforOffload.readFunc` — Python's reading of the text of one function;
* `ParforOffload.exec`, `ParforOffload.call` — running the body of the stub.

Main results:

* `ParforOffload.gufuncTxt_spec` — for every depth up to 23, every list of index names and every
  list of bounds, the stub reads as the expected function: the global ids, then the nested loops
  with the sentinel innermost, then `return None`; and a work-item runs the sentinel once for each
  tuple of the loops' ranges `range(start, stop + 1)`, in order;
* `ParforOffload.readFunc_gufuncTxt_deep` — from 24 dimensions on, more than twenty loops nest and
  Python refuses the stub;
* `ParforOffload.gufuncTxt_runs_stop` — at depth four, the work-item also runs it with the fourth
  index equal to its loop's `stop`.
-/

import Mathlib.Algebra.Order.BigOperators.Group.List
import Mathlib.Algebra.Order.Group.Nat
import ParforOffload.Python

set_option autoImplicit false

namespace ParforOffload

/-! ### The text of the stub -/

/-- Python's `str` of a loop bound: a variable prints as its name. -/
def Bound.str : Bound → String
  | .var x => x
  | .const n => toString n

/-- `str(param_dict.get(str(b), b))`: a parameter is printed under its legal name. -/
def paramStr (paramDict : List (String × String)) (b : Bound) : String :=
  (paramDict.lookup b.str).getD b.str

/-- `_schedule_loop(parfor_dim, legal_loop_indices, loop_ranges, param_dict)`. -/
def scheduleLoop (parforDim : Nat) (legalLoopIndices : List String)
    (loopRanges : List (Bound × Bound × Bound)) (paramDict : List (String × String)) : String :=
  let globalIdDim := if parforDim > 3 then 3 else parforDim
  let forLoopDim := parforDim
  let gufuncTxt := (List.range globalIdDim).foldl (fun gufuncTxt eachdim =>
    gufuncTxt ++ ("    " ++ legalLoopIndices.getD eachdim "" ++ " = " ++ "dppy.get_global_id(" ++
      toString eachdim ++ ")\n")) ""
  let gufuncTxt := (List.range' globalIdDim (forLoopDim - globalIdDim)).foldl
    (fun gufuncTxt eachdim =>
      let gufuncTxt :=
        (List.range (1 + (eachdim - globalIdDim))).foldl (fun gufuncTxt _ => gufuncTxt ++ "    ")
          gufuncTxt
      let (start, stop, _) := loopRanges.getD eachdim (.const 0, .const 0, .const 1)
      gufuncTxt ++ ("for " ++ legalLoopIndices.getD eachdim "" ++ " in range(" ++
        paramStr paramDict start ++ ", " ++ paramStr paramDict stop ++ " + 1):\n")) gufuncTxt
  (List.range' globalIdDim (forLoopDim - globalIdDim)).foldl (fun gufuncTxt eachdim =>
    (List.range (1 + (eachdim - globalIdDim))).foldl (fun gufuncTxt _ => gufuncTxt ++ "    ")
      gufuncTxt) gufuncTxt

/-- The text of the kernel stub, as `_create_gufunc_for_parfor_body` assembles it. -/
def gufuncTxt (parforId : Nat) (parforParams : List String) (parforDim : Nat)
    (legalLoopIndices : List String) (loopRanges : List (Bound × Bound × Bound))
    (paramDict : List (String × String)) (sentinelName : String) : String :=
  let gufuncName := "__numba_parfor_gufunc_" ++ toString parforId
  "def " ++ gufuncName ++ "(" ++ ", ".intercalate parforParams ++ "):\n" ++
    scheduleLoop parforDim legalLoopIndices loopRanges paramDict ++ "    " ++
    (sentinelName ++ " = 0\n") ++ "    return None\n"

/-- `global_id_dim` of `_schedule_loop`: the dimensions bound to global ids. -/
def globalIdDim (parforDim : Nat) : Nat := if parforDim > 3 then 3 else parforDim

/-- The dimensions `_schedule_loop` writes a `for` loop for. -/
def serialDims (parforDim : Nat) : List Nat :=
  List.range' (globalIdDim parforDim) (parforDim - globalIdDim parforDim)

/-! ### What the stub is meant to read as -/

/-- The expression Python reads from a printed loop bound. -/
def boundExpr (paramDict : List (String × String)) : Bound → PyExpr
  | .var x => .name ((paramDict.lookup x).getD x)
  | .const n => .int n

/-- The value of a bound in a call with the arguments `args`: the argument of the parameter it
names, or the constant. -/
def boundValue (parforParams : List String) (args : List Int) (paramDict : List (String × String)) :
    Bound → Int
  | .var x => ((parforParams.zip args).lookup ((paramDict.lookup x).getD x)).getD 0
  | .const n => n

/-- The loop `_schedule_loop` writes for dimension `e`: its index, start and stop. -/
def stubLoop (legalLoopIndices : List String) (loopRanges : List (Bound × Bound × Bound))
    (paramDict : List (String × String)) (e : Nat) : String × PyExpr × PyExpr :=
  let r := loopRanges.getD e (.const 0, .const 0, .const 1)
  (legalLoopIndices.getD e "", boundExpr paramDict r.1, boundExpr paramDict r.2.1)

/-- The nest of the loops `loops`, each over `range(start, stop + 1)`, with the assignment of the
sentinel innermost. -/
def nestStmt (sentinelName : String) : List (String × PyExpr × PyExpr) → PyStmt
  | [] => .assignConst sentinelName 0
  | (x, a, b) :: loops => .forRange x a (.add b (.int 1)) (.seq (nestStmt sentinelName loops) .skip)

/-- `x = dppy.get_global_id(d)`. -/
def gidStmt (legalLoopIndices : List String) (d : Nat) : PyStmt :=
  .assignCall (legalLoopIndices.getD d "") "dppy" "get_global_id" (.int d)

/-- The function the stub defines: the global ids, then the loop nest, then `return None`. -/
def stubFunc (parforId : Nat) (parforParams : List String) (parforDim : Nat)
    (legalLoopIndices : List String) (loopRanges : List (Bound × Bound × Bound))
    (paramDict : List (String × String)) (sentinelName : String) : PyFunc where
  name := "__numba_parfor_gufunc_" ++ toString parforId
  params := parforParams
  body := ((List.range (globalIdDim parforDim)).map (gidStmt legalLoopIndices)).foldr .seq
    (.seq (nestStmt sentinelName ((serialDims parforDim).map
      (stubLoop legalLoopIndices loopRanges paramDict))) (.seq .retNone .skip))

/-- A bound the stub can print: a parameter of the function that is neither an index nor the
sentinel, or a constant whose text is not a key of `param_dict`. -/
def BoundOK (parforParams legalLoopIndices : List String) (paramDict : List (String × String))
    (sentinelName : String) : Bound → Prop
  | .var x => (paramDict.lookup x).getD x ∈ parforParams ∧
      (paramDict.lookup x).getD x ∉ legalLoopIndices ∧ (paramDict.lookup x).getD x ≠ sentinelName
  | .const n => paramDict.lookup (toString n) = none

instance (parforParams legalLoopIndices : List String) (paramDict : List (String × String))
    (sentinelName : String) : DecidablePred (BoundOK parforParams legalLoopIndices paramDict sentinelName)
  | .var _ => inferInstanceAs (Decidable (_ ∧ _ ∧ _))
  | .const _ => inferInstanceAs (Decidable (_ = _))

/-- The inputs `_create_gufunc_for_parfor_body` writes the stub from, as numba builds them: names
for the parameters, one distinct name per dimension for the indices, a fresh sentinel, and one
range per dimension whose bounds are parameters or integer constants. -/
structure StubInputs (parforParams : List String) (parforDim : Nat) (legalLoopIndices : List String)
    (loopRanges : List (Bound × Bound × Bound)) (paramDict : List (String × String))
    (sentinelName : String) : Prop where
  params_ident : ∀ p ∈ parforParams, IsIdent p
  params_nodup : parforParams.Nodup
  indices_length : legalLoopIndices.length = parforDim
  indices_ident : ∀ x ∈ legalLoopIndices, IsIdent x
  indices_nodup : legalLoopIndices.Nodup
  sentinel_ident : IsIdent sentinelName
  sentinel_fresh : sentinelName ∉ legalLoopIndices
  ranges_length : loopRanges.length = parforDim
  bounds_ok : ∀ r ∈ loopRanges, BoundOK parforParams legalLoopIndices paramDict sentinelName r.1 ∧
    BoundOK parforParams legalLoopIndices paramDict sentinelName r.2.1

/-! ### The physical lines of the stub -/

section Lines

/-- A loop that appends a piece to the text at each step appends all the pieces, in order. -/
theorem foldl_data {α : Type} (step : String → α → String) (piece : α → List Char)
    (hstep : ∀ t i, (step t i).data = t.data ++ piece i) (l : List α) (t : String) :
    (l.foldl step t).data = t.data ++ (l.map piece).flatten := by
  induction l generalizing t with
  | nil => simp
  | cons i l ih => simp [ih, hstep, List.append_assoc]

theorem flatten_map_replicate {α : Type} (f : α → Nat) (c : Char) (l : List α) :
    (l.map fun e => List.replicate (f e) c).flatten = List.replicate (l.map f).sum c := by
  induction l with
  | nil => rfl
  | cons e l ih =>
    rw [List.map_cons, List.flatten_cons, ih, List.map_cons, List.sum_cons, List.replicate_add]

/-- `for indent in range(n): gufunc_txt += "    "`. -/
theorem indent_data (n : Nat) (t : String) :
    ((List.range n).foldl (fun t _ => t ++ "    ") t).data = t.data ++ List.replicate (4 * n) ' ' := by
  induction n with
  | zero => simp
  | succ n ih =>
    rw [List.range_succ, List.foldl_append, List.foldl_cons, List.foldl_nil, String.data_append, ih,
      Nat.mul_succ, List.replicate_add, List.append_assoc]
    rfl

/-- The physical lines of the stub: the indentation and the text of each. -/
def stubLines (parforId : Nat) (parforParams : List String) (parforDim : Nat)
    (legalLoopIndices : List String) (loopRanges : List (Bound × Bound × Bound))
    (paramDict : List (String × String)) (sentinelName : String) : List (Nat × List Char) :=
  let g := globalIdDim parforDim
  let loops := serialDims parforDim
  [(0, ("def " ++ ("__numba_parfor_gufunc_" ++ toString parforId) ++ "(" ++
      ", ".intercalate parforParams ++ "):").data)] ++
    (List.range g).map (fun d => (4, (legalLoopIndices.getD d "" ++ " = " ++
      "dppy.get_global_id(" ++ toString d ++ ")").data)) ++
    loops.map (fun e => (4 * (1 + (e - g)), ("for " ++ legalLoopIndices.getD e "" ++
      " in range(" ++ paramStr paramDict (loopRanges.getD e (.const 0, .const 0, .const 1)).1 ++
      ", " ++ paramStr paramDict (loopRanges.getD e (.const 0, .const 0, .const 1)).2.1 ++
      " + 1):").data)) ++
    [((loops.map fun e => 4 * (1 + (e - g))).sum + 4, (sentinelName ++ " = 0").data),
      (4, "return None".data)]

/-- The text of the stub is its lines, each ended by a line break. -/
theorem gufuncTxt_data (parforId : Nat) (parforParams : List String) (parforDim : Nat)
    (legalLoopIndices : List String) (loopRanges : List (Bound × Bound × Bound))
    (paramDict : List (String × String)) (sentinelName : String) :
    (gufuncTxt parforId parforParams parforDim legalLoopIndices loopRanges paramDict
      sentinelName).data =
    ((stubLines parforId parforParams parforDim legalLoopIndices loopRanges paramDict
      sentinelName).map fun p => List.replicate p.1 ' ' ++ p.2 ++ ['\n']).flatten := by
  simp only [gufuncTxt, scheduleLoop, stubLines, globalIdDim, serialDims, String.data_append]
  rw [foldl_data _ (fun e => List.replicate (4 * (1 + (e - if parforDim > 3 then 3 else parforDim)))
      ' ') (fun t e => indent_data _ t),
    foldl_data _ (fun e => List.replicate (4 * (1 + (e - if parforDim > 3 then 3 else parforDim)))
      ' ' ++ ("for " ++ legalLoopIndices.getD e "" ++ " in range(" ++
      paramStr paramDict (loopRanges.getD e (.const 0, .const 0, .const 1)).1 ++ ", " ++
      paramStr paramDict (loopRanges.getD e (.const 0, .const 0, .const 1)).2.1 ++
      " + 1):\n").data) (fun t e => by simp only [String.data_append, indent_data,
        List.append_assoc]),
    foldl_data _ (fun d => ("    " ++ legalLoopIndices.getD d "" ++ " = " ++
      "dppy.get_global_id(" ++ toString d ++ ")\n").data) (fun t d => String.data_append _ _),
    flatten_map_replicate]
  simp only [String.data_append, List.append_assoc, List.map_append, List.map_cons, List.map_nil,
    List.flatten_append, List.flatten_cons, List.flatten_nil, List.map_map, Function.comp_def,
    List.append_nil, List.replicate_add]
  rfl

end Lines

/-! ### The logical lines of the stub -/

section Lex

/-- The tokens of `x = dppy.get_global_id(d)`. -/
def gidToks (x : String) (d : Nat) : List Tok :=
  [.name x, .op '=', .name "dppy", .op '.', .name "get_global_id", .op '(', .num d, .op ')']

/-- The tokens of `for x in range(a, b + 1):`. -/
def forToks (x : String) (a b : PyExpr) : List Tok :=
  .name "for" :: .name x :: .name "in" :: .name "range" :: .op '(' ::
    (exprToks a ++ .op ',' :: (exprToks (.add b (.int 1)) ++ [.op ')', .op ':']))

/-- The logical lines of the stub: the indentation and the tokens of each. -/
def stubTokLines (parforId : Nat) (parforParams : List String) (parforDim : Nat)
    (legalLoopIndices : List String) (loopRanges : List (Bound × Bound × Bound))
    (paramDict : List (String × String)) (sentinelName : String) : List LogicalLine :=
  let g := globalIdDim parforDim
  let loop := stubLoop legalLoopIndices loopRanges paramDict
  [(0, .name "def" :: .name ("__numba_parfor_gufunc_" ++ toString parforId) :: .op '(' ::
      (paramToks parforParams ++ [.op ')', .op ':']))] ++
    (List.range g).map (fun d => (4, gidToks (legalLoopIndices.getD d "") d)) ++
    (serialDims parforDim).map (fun e => (4 * (1 + (e - g)),
      forToks (loop e).1 (loop e).2.1 (loop e).2.2)) ++
    [(((serialDims parforDim).map fun e => 4 * (1 + (e - g))).sum + 4,
        [.name sentinelName, .op '=', .num 0]),
      (4, [.name "return", .name "None"])]

theorem intercalate_go_data (acc s : String) (l : List String) :
    (String.intercalate.go acc s l).data = acc.data ++ (l.map fun a => s.data ++ a.data).flatten := by
  induction l generalizing acc with
  | nil => simp [String.intercalate.go]
  | cons a l ih => simp [String.intercalate.go, ih, List.append_assoc]

theorem lexAux_params {ps : List String} (hps : ∀ p ∈ ps, IsIdent p) :
    lexAux [] ((", ".intercalate ps).data ++ "):".data) = paramToks ps ++ [.op ')', .op ':'] := by
  match ps, hps with
  | [], _ => rfl
  | p :: ps, hps =>
    have tail : ∀ qs : List String, (∀ q ∈ qs, IsIdent q) →
        lexAux [] ((qs.map fun q => ", ".data ++ q.data).flatten ++ "):".data) =
          qs.flatMap (fun q => [.op ',', .name q]) ++ [.op ')', .op ':'] := by
      intro qs hqs
      induction qs with
      | nil => rfl
      | cons q qs ih =>
        rw [List.map_cons, List.flatten_cons, List.append_assoc, List.append_assoc,
          lexAux_append_of_last _ _ (by rfl),
          lexAux_ident_append (hqs q (List.mem_cons_self _ _)) _ (by cases qs <;> rfl),
          ih fun r hr => hqs r (List.mem_cons_of_mem _ hr)]
        rfl
    rw [String.intercalate, intercalate_go_data, List.append_assoc,
      lexAux_ident_append (hps p (List.mem_cons_self _ _)) _ (by cases ps <;> rfl),
      tail ps fun q hq => hps q (List.mem_cons_of_mem _ hq)]
    rfl

theorem lexAux_header {f : String} (hf : IsIdent f) {ps : List String} (hps : ∀ p ∈ ps, IsIdent p) :
    lexAux [] ("def " ++ f ++ "(" ++ ", ".intercalate ps ++ "):").data =
      .name "def" :: .name f :: .op '(' :: (paramToks ps ++ [.op ')', .op ':']) := by
  simp only [String.data_append, List.append_assoc]
  rw [lexAux_append_of_last _ _ (by rfl), lexAux_ident_append hf _ (by rfl),
    lexAux_append_of_last _ _ (by rfl), lexAux_params hps]
  rfl

theorem lexAux_gidLine {x : String} (hx : IsIdent x) (d : Nat) :
    lexAux [] (x ++ " = " ++ "dppy.get_global_id(" ++ toString d ++ ")").data = gidToks x d := by
  simp only [String.data_append, List.append_assoc]
  rw [lexAux_ident_append hx _ (by rfl), lexAux_append_of_last _ _ (by rfl),
    lexAux_append_of_last _ _ (by rfl), lexAux_append_of_head [] _ _ (by rfl), lexAux_nat]
  rfl

theorem lexAux_forLine {x A B : String} {a b : PyExpr} (hx : IsIdent x)
    (hA : lexAux [] A.data = exprToks a) (hB : lexAux [] B.data = exprToks b) :
    lexAux [] ("for " ++ x ++ " in range(" ++ A ++ ", " ++ B ++ " + 1):").data = forToks x a b := by
  simp only [String.data_append, List.append_assoc]
  rw [lexAux_append_of_last _ _ (by rfl), lexAux_ident_append hx _ (by rfl),
    lexAux_append_of_last _ _ (by rfl), lexAux_append_of_head [] _ _ (by rfl), hA,
    lexAux_append_of_last _ _ (by rfl), lexAux_append_of_head [] _ _ (by rfl), hB]
  simp [forToks, exprToks, intToks, List.append_assoc]
  rfl

theorem lexAux_sentinelLine {x : String} (hx : IsIdent x) :
    lexAux [] (x ++ " = 0").data = [.name x, .op '=', .num 0] := by
  rw [String.data_append, lexAux_ident_append hx _ (by rfl)]
  rfl

theorem gufuncName_ident (parforId : Nat) : IsIdent ("__numba_parfor_gufunc_" ++ toString parforId) := by
  have key : ∀ k ∈ pyKeywords, k.data.head? ≠ some '_' := by decide
  refine ⟨List.cons_ne_nil _ _, ?_, fun h => absurd (Option.some.inj h) (by decide),
    fun h => key _ h (by rfl)⟩
  rw [String.data_append]
  intro c hc
  rcases List.mem_append.1 hc with hc | hc
  · exact (by decide : ∀ c ∈ "__numba_parfor_gufunc_".data, isWordChar c = true) c hc
  · simp [isWordChar, Char.isAlphanum, isDigit_of_mem_toDigitsCore (parforId + 1) parforId c hc]

theorem lexAux_paramStr {parforParams legalLoopIndices : List String}
    {paramDict : List (String × String)} {sentinelName : String} {b : Bound}
    (hp : ∀ p ∈ parforParams, IsIdent p)
    (hb : BoundOK parforParams legalLoopIndices paramDict sentinelName b) :
    lexAux [] (paramStr paramDict b).data = exprToks (boundExpr paramDict b) := by
  cases b with
  | var x => exact lexAux_ident (hp _ hb.1)
  | const n =>
    simp only [BoundOK] at hb
    simp only [paramStr, Bound.str, hb, Option.getD_none, boundExpr, exprToks]
    exact lexAux_int n

end Lex

/-! ### Reading the stub -/

section Read

variable {parforParams : List String} {parforDim : Nat} {legalLoopIndices : List String}
  {loopRanges : List (Bound × Bound × Bound)} {paramDict : List (String × String)}
  {sentinelName : String}

theorem globalIdDim_le (parforDim : Nat) : globalIdDim parforDim ≤ parforDim := by
  unfold globalIdDim
  split <;> omega

theorem mem_serialDims {e : Nat} :
    e ∈ serialDims parforDim ↔ globalIdDim parforDim ≤ e ∧ e < parforDim := by
  have := globalIdDim_le parforDim
  rw [serialDims, List.mem_range'_1]
  omega

theorem StubInputs.index_ident
    (hin : StubInputs parforParams parforDim legalLoopIndices loopRanges paramDict sentinelName)
    {d : Nat} (hd : d < parforDim) : IsIdent (legalLoopIndices.getD d "") := by
  have hd : d < legalLoopIndices.length := hin.indices_length ▸ hd
  rw [List.getD_eq_getElem?_getD, List.getElem?_eq_getElem hd]
  exact hin.indices_ident _ (List.getElem_mem hd)

theorem StubInputs.bound
    (hin : StubInputs parforParams parforDim legalLoopIndices loopRanges paramDict sentinelName)
    {e : Nat} (he : e < parforDim) :
    BoundOK parforParams legalLoopIndices paramDict sentinelName
        (loopRanges.getD e (.const 0, .const 0, .const 1)).1 ∧
      BoundOK parforParams legalLoopIndices paramDict sentinelName
        (loopRanges.getD e (.const 0, .const 0, .const 1)).2.1 := by
  have he : e < loopRanges.length := hin.ranges_length ▸ he
  rw [List.getD_eq_getElem?_getD, List.getElem?_eq_getElem he]
  exact hin.bounds_ok _ (List.getElem_mem he)

theorem StubInputs.index_inj
    (hin : StubInputs parforParams parforDim legalLoopIndices loopRanges paramDict sentinelName)
    {d d' : Nat} (hd : d < parforDim) (hd' : d' < parforDim)
    (h : legalLoopIndices.getD d "" = legalLoopIndices.getD d' "") : d = d' := by
  rw [← hin.indices_length] at hd hd'
  rw [List.getD_eq_getElem?_getD, List.getElem?_eq_getElem hd, List.getD_eq_getElem?_getD,
    List.getElem?_eq_getElem hd', Option.getD_some, Option.getD_some] at h
  exact (hin.indices_nodup.getElem_inj_iff).1 h

theorem StubInputs.index_mem
    (hin : StubInputs parforParams parforDim legalLoopIndices loopRanges paramDict sentinelName)
    {d : Nat} (hd : d < parforDim) : legalLoopIndices.getD d "" ∈ legalLoopIndices := by
  have hd : d < legalLoopIndices.length := hin.indices_length ▸ hd
  rw [List.getD_eq_getElem?_getD, List.getElem?_eq_getElem hd]
  exact List.getElem_mem hd

theorem StubInputs.nodup_indices
    (hin : StubInputs parforParams parforDim legalLoopIndices loopRanges paramDict sentinelName)
    {ds : List Nat} (hds : ds.Nodup) (hlt : ∀ d ∈ ds, d < parforDim) :
    (ds.map fun d => legalLoopIndices.getD d "").Nodup :=
  hds.map_on fun _ hd _ hd' h => hin.index_inj (hlt _ hd) (hlt _ hd') h

/-- The names a printed bound reads are parameters, neither indices nor the sentinel. -/
theorem names_boundExpr {b : Bound} (hb : BoundOK parforParams legalLoopIndices paramDict sentinelName b) :
    ∀ y ∈ (boundExpr paramDict b).names, y ∈ parforParams ∧ y ∉ legalLoopIndices ∧ y ≠ sentinelName := by
  cases b with
  | var x =>
    intro y hy
    rw [boundExpr, PyExpr.names, List.mem_singleton] at hy
    exact hy ▸ hb
  | const n => simp [boundExpr, PyExpr.names]

/-- A printed bound evaluates to its value, in a state that agrees with the call's arguments on the
parameters that are not indices. -/
theorem evalExpr_boundExpr {args : List Int} (hargs : parforParams.length ≤ args.length)
    {env : PyEnv}
    (henv : ∀ y ∈ parforParams, y ∉ legalLoopIndices → env y = (parforParams.zip args).lookup y)
    {b : Bound} (hb : BoundOK parforParams legalLoopIndices paramDict sentinelName b) :
    evalExpr env (boundExpr paramDict b) = some (boundValue parforParams args paramDict b) := by
  cases b with
  | var x =>
    obtain ⟨hp, hi, -⟩ := hb
    obtain ⟨v, hv⟩ := Option.isSome_iff_exists.1 (lookup_zip_isSome hp hargs)
    simp only [boundExpr, evalExpr, boundValue, henv _ hp hi, hv, Option.getD_some]
  | const n => rfl

theorem IsIdent.data_cons {x : String} (hx : IsIdent x) (t : List Char) :
    ∃ c cs, x.data ++ t = c :: cs ∧ c ≠ ' ' := by
  obtain ⟨c, cs, hcs⟩ := List.exists_cons_of_ne_nil hx.1
  refine ⟨c, cs ++ t, by rw [hcs, List.cons_append], fun h => ?_⟩
  have := hx.2.1 c (hcs ▸ List.mem_cons_self _ _)
  rw [h] at this
  exact absurd this (by decide)

theorem error_not_mem_exprToks (e : PyExpr) : Tok.error ∉ exprToks e := by
  induction e with
  | name x => simp [exprToks]
  | int n => cases n <;> simp [exprToks, intToks]
  | add a b iha ihb => simp [exprToks, iha, ihb]

theorem error_not_mem_stubTokLines (parforId : Nat) :
    ∀ p ∈ stubTokLines parforId parforParams parforDim legalLoopIndices loopRanges paramDict
      sentinelName, Tok.error ∉ p.2 := by
  intro p hp
  simp only [stubTokLines, List.mem_append, List.mem_map, List.mem_cons, List.mem_singleton,
    List.not_mem_nil, or_false] at hp
  rcases hp with ((rfl | ⟨d, -, rfl⟩) | ⟨e, -, rfl⟩) | rfl | rfl
  · cases parforParams <;> simp [paramToks]
  · simp [gidToks]
  · simp [forToks, exprToks, intToks, error_not_mem_exprToks]
  all_goals simp

/-- **The lines of the stub.**  Python reads the text of the stub as the logical lines
`stubTokLines`. -/
theorem logicalLines_gufuncTxt
    (hin : StubInputs parforParams parforDim legalLoopIndices loopRanges paramDict sentinelName)
    (parforId : Nat) :
    logicalLines (gufuncTxt parforId parforParams parforDim legalLoopIndices loopRanges paramDict
      sentinelName) =
    stubTokLines parforId parforParams parforDim legalLoopIndices loopRanges paramDict
      sentinelName := by
  have hmap : (stubLines parforId parforParams parforDim legalLoopIndices loopRanges paramDict
      sentinelName).map (fun p => (p.1, lexAux [] p.2)) =
      stubTokLines parforId parforParams parforDim legalLoopIndices loopRanges paramDict
        sentinelName := by
    simp only [stubLines, stubTokLines, List.map_append, List.map_cons, List.map_nil, List.map_map,
      Function.comp_def]
    congr 1
    congr 1
    congr 1
    · rw [lexAux_header (gufuncName_ident parforId) hin.params_ident]
    · refine List.map_congr_left fun d hd => ?_
      have hd : d < parforDim := Nat.lt_of_lt_of_le (List.mem_range.1 hd) (globalIdDim_le _)
      rw [lexAux_gidLine (hin.index_ident hd)]
    · refine List.map_congr_left fun e he => ?_
      have he := (mem_serialDims.1 he).2
      rw [lexAux_forLine (hin.index_ident he) (lexAux_paramStr hin.params_ident (hin.bound he).1)
        (lexAux_paramStr hin.params_ident (hin.bound he).2)]
      rfl
    · rw [lexAux_sentinelLine hin.sentinel_ident]
      rfl
  rw [← hmap]
  refine logicalLines_eq _ _ (fun p hp => ⟨fun hn => ?_, ?_⟩) (gufuncTxt_data ..)
  · have hmem := List.mem_map_of_mem (fun p => (p.1, lexAux [] p.2)) hp
    rw [hmap] at hmem
    exact error_not_mem_stubTokLines parforId _ hmem (error_mem_lexAux_of_newline hn [])
  · simp only [stubLines, List.mem_append, List.mem_map, List.mem_cons, List.mem_singleton,
      List.not_mem_nil, or_false] at hp
    rcases hp with ((rfl | ⟨d, hd, rfl⟩) | ⟨e, -, rfl⟩) | rfl | rfl
    · exact ⟨_, _, rfl, by decide⟩
    · simpa only [String.data_append, List.append_assoc] using
        (hin.index_ident (Nat.lt_of_lt_of_le (List.mem_range.1 hd) (globalIdDim_le _))).data_cons _
    · exact ⟨_, _, rfl, by decide⟩
    · simpa only [String.data_append] using hin.sentinel_ident.data_cons _
    · exact ⟨_, _, rfl, by decide⟩

end Read

/-! ### Parsing the stub -/

section Parse

variable (sentinelName : String) (ind : Nat → Nat) (loop : Nat → String × PyExpr × PyExpr)

theorem ne_for_of_not_keyword {x : String} (hx : x ∉ pyKeywords) : x ≠ "for" := by
  rintro rfl
  exact hx (by decide)

theorem parseForHeader_forToks {x : String} {a b : PyExpr} (hx : x ∉ pyKeywords) (ha : IsAtom a)
    (hb : IsAtom b) : parseForHeader (forToks x a b) = some (x, a, .add b (.int 1)) :=
  parseForHeader_range hx ha.isExpr ⟨hb, trivial⟩

theorem head?_nestLines (es : List Nat) (T : Nat → List Tok) (S : Nat) (t : List Tok)
    (rest : List LogicalLine) :
    (es.map (fun e => (ind e, T e)) ++ (S, t) :: rest).head?.map Prod.fst = (es.map ind ++ [S]).head? := by
  cases es <;> rfl

/-- **The loop nest reads as nested blocks.**  The `for` lines of the loops `es`, each indented more
than the one before, then the sentinel's line indented more than all of them, read as the nest of
the loops with the sentinel's assignment innermost; the block of the outermost loop goes on with
the lines after, which are indented no more than it. -/
theorem parseBlock_nest (hs : sentinelName ∉ pyKeywords) (S : Nat) (es : List Nat)
    (hloops : ∀ e ∈ es, (loop e).1 ∉ pyKeywords ∧ IsAtom (loop e).2.1 ∧ IsAtom (loop e).2.2)
    (hind : (es.map ind ++ [S]).Pairwise (· < ·)) {k fuel : Nat} {more : PyStmt}
    {rest r : List LogicalLine} (hk : (es.map ind ++ [S]).head? = some k)
    (hrest : ∀ p ∈ rest.head?, p.1 ≤ k) (hm : parseBlock fuel k rest = some (more, r)) :
    parseBlock (fuel + es.length + 1) k
        (es.map (fun e => (ind e, forToks (loop e).1 (loop e).2.1 (loop e).2.2)) ++
          (S, [.name sentinelName, .op '=', .num 0]) :: rest) =
      some (.seq (nestStmt sentinelName (es.map loop)) more, r) := by
  induction es generalizing k fuel more r with
  | nil =>
    obtain rfl : S = k := by simpa using hk
    exact parseBlock_simple (parseForHeader_name (ne_for_of_not_keyword hs) _)
      (parseSimple_assignConst hs 0) hm
  | cons e es ih =>
    obtain rfl : ind e = k := by simpa using hk
    rw [List.map_cons, List.cons_append, List.pairwise_cons] at hind
    obtain ⟨k', hk'⟩ : ∃ k', (es.map ind ++ [S]).head? = some k' := by cases es <;> simp
    have hlt : ind e < k' := hind.1 k' (List.mem_of_mem_head? hk')
    obtain ⟨fuel, rfl⟩ : ∃ f, fuel = f + 1 := by
      cases fuel
      · simp [parseBlock] at hm
      · exact ⟨_, rfl⟩
    have hbody := ih (fun e' he' => hloops e' (List.mem_cons_of_mem _ he')) hind.2 hk'
      (fun p hp => by have := hrest p hp; omega)
      (parseBlock_end fuel fun p hp => Nat.lt_of_le_of_lt (hrest p hp) hlt)
    obtain ⟨hx, ha, hb⟩ := hloops e (List.mem_cons_self _ _)
    rw [List.length_cons, show fuel + 1 + (es.length + 1) + 1 = fuel + 1 + es.length + 1 + 1 by omega]
    exact parseBlock_for (parseForHeader_forToks hx ha hb) hlt (head?_nestLines ind es _ _ _ _ ▸ hk')
      hbody (parseBlock_mono hm (by omega))

theorem parseSimple_gidToks {x : String} (hx : x ∉ pyKeywords) (d : Nat) :
    parseSimple (gidToks x d) = some (.assignCall x "dppy" "get_global_id" (.int d)) :=
  @parseSimple_assignCall x "dppy" "get_global_id" hx (by decide) (by decide) (.int d) trivial

theorem isAtom_boundExpr {parforParams legalLoopIndices : List String}
    {paramDict : List (String × String)} {sentinelName : String} {b : Bound}
    (hp : ∀ p ∈ parforParams, IsIdent p)
    (hb : BoundOK parforParams legalLoopIndices paramDict sentinelName b) :
    IsAtom (boundExpr paramDict b) := by
  cases b with
  | var x => exact (hp _ hb.1).2.2.2
  | const n => trivial

/-- The indentations of the loops, then of the sentinel, increase. -/
theorem pairwise_indents (parforDim : Nat) :
    (((serialDims parforDim).map fun e => 4 * (1 + (e - globalIdDim parforDim))) ++
      [((serialDims parforDim).map fun e => 4 * (1 + (e - globalIdDim parforDim))).sum + 4]).Pairwise
      (· < ·) := by
  refine List.pairwise_append.2 ⟨List.pairwise_map.2 ?_, List.pairwise_singleton _ _, ?_⟩
  · refine (List.pairwise_lt_range' _ _).imp_of_mem fun ha _ hab => ?_
    have := (mem_serialDims.1 ha).1
    omega
  · intro a ha b hb
    rw [List.mem_singleton.1 hb]
    have := List.le_sum_of_mem ha
    omega

theorem head?_indents (parforDim : Nat) :
    (((serialDims parforDim).map fun e => 4 * (1 + (e - globalIdDim parforDim))) ++
      [((serialDims parforDim).map fun e => 4 * (1 + (e - globalIdDim parforDim))).sum + 4]).head? =
      some 4 := by
  rw [serialDims]
  cases parforDim - globalIdDim parforDim with
  | zero => rfl
  | succ n => simp [List.range'_succ]

theorem head?_append_of_indent {l₁ l₂ : List LogicalLine} {k : Nat} (h₁ : ∀ p ∈ l₁, p.1 = k)
    (h₂ : l₂.head?.map Prod.fst = some k) : (l₁ ++ l₂).head?.map Prod.fst = some k := by
  cases l₁ with
  | nil => exact h₂
  | cons p l₁ => simp [h₁ p (List.mem_cons_self _ _)]

variable {parforParams : List String} {parforDim : Nat} {legalLoopIndices : List String}
  {loopRanges : List (Bound × Bound × Bound)} {paramDict : List (String × String)}

/-- **The stub parses as the expected function**: Python parses the stub's text as a function
whose body binds the first indices to the global ids, then runs the nest of the remaining loops
with the sentinel's assignment innermost, then returns. -/
theorem parseFunc_gufuncTxt
    (hin : StubInputs parforParams parforDim legalLoopIndices loopRanges paramDict sentinelName)
    (parforId : Nat) :
    parseFunc (gufuncTxt parforId parforParams parforDim legalLoopIndices loopRanges paramDict
      sentinelName) =
    some (stubFunc parforId parforParams parforDim legalLoopIndices loopRanges paramDict
      sentinelName) := by
  have hret : parseBlock 2 4 [(4, [.name "return", .name "None"])] = some (.seq .retNone .skip, []) :=
    parseBlock_simple rfl rfl (parseBlock_nil 1 4)
  have hnest := parseBlock_nest sentinelName (fun e => 4 * (1 + (e - globalIdDim parforDim)))
    (stubLoop legalLoopIndices loopRanges paramDict) hin.sentinel_ident.2.2.2 _ (serialDims parforDim)
    (fun e he => by
      have he := (mem_serialDims.1 he).2
      exact ⟨(hin.index_ident he).2.2.2, isAtom_boundExpr hin.params_ident (hin.bound he).1,
        isAtom_boundExpr hin.params_ident (hin.bound he).2⟩)
    (pairwise_indents parforDim) (head?_indents parforDim) (fun p hp => by cases hp; exact le_refl 4)
    hret
  have hgid := parseBlock_simples ((List.range (globalIdDim parforDim)).map fun d =>
      (gidToks (legalLoopIndices.getD d "") d, gidStmt legalLoopIndices d))
    (fun p hp => by
      obtain ⟨d, hd, rfl⟩ := List.mem_map.1 hp
      have hx := (hin.index_ident (Nat.lt_of_lt_of_le (List.mem_range.1 hd) (globalIdDim_le _))).2.2.2
      exact ⟨parseForHeader_name (ne_for_of_not_keyword hx) _, parseSimple_gidToks hx d⟩) hnest
  have hl := logicalLines_gufuncTxt hin parforId
  simp only [stubTokLines, List.singleton_append, List.cons_append, List.nil_append,
    List.append_assoc] at hl
  simp only [List.map_map, Function.comp_def, List.length_map] at hgid
  refine parseFunc_eq hl (gufuncName_ident parforId).2.2.2
    (parseParams_paramToks fun p hp => (hin.params_ident p hp).2.2.2) hin.params_nodup ?_
    (show 4 ≠ 0 by decide) ?_
  · exact head?_append_of_indent (by simp) ((head?_nestLines _ _ _ _ _ _).trans (head?_indents _))
  have hlen : ∀ (l₁ l₂ : List LogicalLine) (a b : LogicalLine),
      (l₁ ++ (l₂ ++ [a, b])).length + 1 = 2 + l₂.length + 1 + l₁.length := by
    intros
    simp only [List.length_append, List.length_cons, List.length_nil]
    omega
  rw [hlen]
  simpa only [List.length_map] using hgid

theorem loopDepth_nestStmt (sentinelName : String) :
    ∀ loops : List (String × PyExpr × PyExpr), (nestStmt sentinelName loops).loopDepth = loops.length
  | [] => rfl
  | (x, a, b) :: loops => by
    simp [nestStmt, PyStmt.loopDepth, loopDepth_nestStmt sentinelName loops]

/-- The loops of the stub nest as deep as the dimensions beyond the third. -/
theorem loopDepth_stubFunc (parforId : Nat) :
    (stubFunc parforId parforParams parforDim legalLoopIndices loopRanges paramDict
      sentinelName).body.loopDepth = parforDim - globalIdDim parforDim := by
  have hgid : ∀ (l : List PyStmt) (t : PyStmt), (∀ s ∈ l, s.loopDepth = 0) →
      (l.foldr .seq t).loopDepth = t.loopDepth := by
    intro l t hl
    induction l with
    | nil => rfl
    | cons s l ih =>
      simp only [List.forall_mem_cons] at hl
      simp [PyStmt.loopDepth, hl.1, ih hl.2]
  rw [stubFunc, hgid _ _ (by simp [gidStmt, PyStmt.loopDepth])]
  simp [PyStmt.loopDepth, loopDepth_nestStmt, serialDims]

/-- **The stub reads as the expected function** when the parfor has at most 23 dimensions, so
that at most twenty loops nest. -/
theorem readFunc_gufuncTxt
    (hin : StubInputs parforParams parforDim legalLoopIndices loopRanges paramDict sentinelName)
    (hdepth : parforDim ≤ 23) (parforId : Nat) :
    readFunc (gufuncTxt parforId parforParams parforDim legalLoopIndices loopRanges paramDict
      sentinelName) =
    some (stubFunc parforId parforParams parforDim legalLoopIndices loopRanges paramDict
      sentinelName) := by
  rw [readFunc_of_parseFunc (parseFunc_gufuncTxt sentinelName hin parforId), loopDepth_stubFunc,
    if_pos (by simp only [globalIdDim, maxStaticBlocks]; split_ifs <;> omega)]

/-- **Python refuses the stub of a deeper parfor**: from 24 dimensions on, more than twenty loops
nest, and `exec` raises `SyntaxError: too many statically nested blocks`. -/
theorem readFunc_gufuncTxt_deep
    (hin : StubInputs parforParams parforDim legalLoopIndices loopRanges paramDict sentinelName)
    (hdepth : 23 < parforDim) (parforId : Nat) :
    readFunc (gufuncTxt parforId parforParams parforDim legalLoopIndices loopRanges paramDict
      sentinelName) = none := by
  rw [readFunc_of_parseFunc (parseFunc_gufuncTxt sentinelName hin parforId), loopDepth_stubFunc,
    if_neg (by simp only [globalIdDim, maxStaticBlocks]; split_ifs <;> omega)]

/-- A parfor of 24 dimensions, each over `range(0, 1)`, with indices `i0`, …, `i23`. -/
def deepIndices : List String :=
  ["i0", "i1", "i2", "i3", "i4", "i5", "i6", "i7", "i8", "i9", "i10", "i11", "i12", "i13", "i14",
    "i15", "i16", "i17", "i18", "i19", "i20", "i21", "i22", "i23"]

theorem readFunc_gufuncTxt_deep_24 :
    StubInputs [] 24 deepIndices (List.replicate 24 (.const 0, .const 1, .const 1)) []
        "__sentinel__" ∧ 23 < 24 ∧
      readFunc (gufuncTxt 0 [] 24 deepIndices (List.replicate 24 (.const 0, .const 1, .const 1)) []
        "__sentinel__") = none :=
  have hin : StubInputs [] 24 deepIndices (List.replicate 24 (.const 0, .const 1, .const 1)) []
      "__sentinel__" :=
    ⟨by decide, by decide, rfl, by decide, by decide, by decide, by decide, rfl, by decide⟩
  ⟨hin, by decide, readFunc_gufuncTxt_deep _ hin (by decide) 0⟩

end Parse

/-! ### Running the stub -/

section Run

variable (gid : Nat → Int) (sentinelName : String)

section Nest

variable (loop : Nat → String × PyExpr × PyExpr) (lo hi : Nat → Int)

/-- **The run of the loop nest.**  If the loop variables are distinct and other than the sentinel,
and the bounds read none of them, the nest of the loops `es` ends normally; it leaves every other
variable as it was, and records the sentinel's assignment once for each tuple of the loops' ranges
`range(lo, hi + 1)`, in order, in a state where each loop variable holds its value in the tuple
and every other variable is as it was. -/
theorem exec_nestStmt (es : List Nat) (hnd : (es.map fun e => (loop e).1).Nodup)
    (hs : sentinelName ∉ es.map fun e => (loop e).1)
    (hnames : ∀ e ∈ es, ∀ y ∈ (loop e).2.1.names ++ (loop e).2.2.names,
      y ∉ es.map (fun e => (loop e).1) ∧ y ≠ sentinelName)
    (env : PyEnv) (hval : ∀ e ∈ es,
      evalExpr env (loop e).2.1 = some (lo e) ∧ evalExpr env (loop e).2.2 = some (hi e)) :
    ∃ t env', exec gid sentinelName (nestStmt sentinelName (es.map loop)) env = some (t, env', false) ∧
      (∀ y, y ∉ es.map (fun e => (loop e).1) → y ≠ sentinelName → env' y = env y) ∧
      (∀ e' ∈ t, ∀ y, y ∉ es.map (fun e => (loop e).1) → y ≠ sentinelName → e' y = env y) ∧
      t.map (fun e' => es.map fun e => e' (loop e).1) =
        (loopTuples (es.map fun e => pyRange (lo e) (hi e + 1))).map (·.map some) := by
  induction es generalizing env with
  | nil =>
    refine ⟨[env], Function.update env sentinelName (some 0), by simp [nestStmt, exec],
      fun y _ hy => Function.update_noteq hy _ _, by simp, by simp [loopTuples]⟩
  | cons e es ih =>
    obtain ⟨hlo, hhi⟩ := hval e (List.mem_cons_self _ _)
    simp only [List.map_cons, List.nodup_cons, List.mem_cons, not_or] at hnd hs
    have hnames' : ∀ i ∈ es, ∀ y ∈ (loop i).2.1.names ++ (loop i).2.2.names,
        y ≠ (loop e).1 ∧ y ∉ es.map (fun e => (loop e).1) ∧ y ≠ sentinelName := fun i hi y hy => by
      have := hnames i (List.mem_cons_of_mem _ hi) y hy
      simp only [List.map_cons, List.mem_cons, not_or] at this
      exact ⟨this.1.1, this.1.2, this.2⟩
    -- What the loop keeps: every variable other than the loop variables and the sentinel.
    let R : PyEnv → Prop := fun env' => ∀ y, y ≠ (loop e).1 → y ∉ es.map (fun e => (loop e).1) →
      y ≠ sentinelName → env' y = env y
    have hbody : ∀ v env'', R env'' → ∃ t env',
        exec gid sentinelName (.seq (nestStmt sentinelName (es.map loop)) .skip)
          (Function.update env'' (loop e).1 (some v)) = some (t, env', false) ∧ R env' ∧
        (∀ e' ∈ t, R e') ∧ t.map (fun e' => e' (loop e).1 :: es.map fun i => e' (loop i).1) =
          ((loopTuples (es.map fun e => pyRange (lo e) (hi e + 1))).map (v :: ·)).map
            (·.map some) := by
      intro v env'' hR
      have hupd : ∀ y, y ≠ (loop e).1 → y ∉ es.map (fun e => (loop e).1) → y ≠ sentinelName →
          Function.update env'' (loop e).1 (some v) y = env y := fun y h₁ h₂ h₃ => by
        rw [Function.update_noteq h₁, hR y h₁ h₂ h₃]
      obtain ⟨t, env', hex, hframe, hP, hproj⟩ := ih hnd.2 hs.2
        (fun i hi y hy => (hnames' i hi y hy).2) _ fun i hi => by
          have hc : ∀ y ∈ (loop i).2.1.names ++ (loop i).2.2.names,
              Function.update env'' (loop e).1 (some v) y = env y := fun y hy =>
            hupd y (hnames' i hi y hy).1 (hnames' i hi y hy).2.1 (hnames' i hi y hy).2.2
          obtain ⟨hl, hh⟩ := hval i (List.mem_cons_of_mem _ hi)
          rw [evalExpr_congr fun y hy => hc y (List.mem_append_left _ hy), hl,
            evalExpr_congr fun y hy => hc y (List.mem_append_right _ hy), hh]
          exact ⟨rfl, rfl⟩
      have hskip : exec gid sentinelName .skip env' = some ([], env', false) := rfl
      refine ⟨t, env', by simpa using exec_seq_continue gid sentinelName hex hskip,
        fun y h₁ h₂ h₃ => (hframe y h₂ h₃).trans (hupd y h₁ h₂ h₃),
        fun e' he' y h₁ h₂ h₃ => (hP e' he' y h₂ h₃).trans (hupd y h₁ h₂ h₃), ?_⟩
      have hx : ∀ e' ∈ t, e' (loop e).1 = some v := fun e' he' => by
        rw [hP e' he' _ hnd.1 (Ne.symm hs.1), Function.update_same]
      calc t.map (fun e' => e' (loop e).1 :: es.map fun i => e' (loop i).1)
          = (t.map fun e' => es.map fun i => e' (loop i).1).map (some v :: ·) := by
            rw [List.map_map]
            exact List.map_congr_left fun e' he' => by rw [Function.comp_apply, hx e' he']
        _ = _ := by rw [hproj, List.map_map, List.map_map]; rfl
    obtain ⟨t, env', hloop, hR, hP, hproj⟩ := loopOver_spec R R _ _ hbody _ env fun _ _ _ _ => rfl
    refine ⟨t, env', ?_, fun y hy hs' => ?_, fun e' he' y hy hs' => ?_, ?_⟩
    · rcases hl : loop e with ⟨x, a, b⟩
      rw [hl] at hlo hhi hloop
      simp only [List.map_cons, hl, nestStmt, exec, hlo, hhi, evalExpr, Option.bind_eq_bind,
        Option.some_bind]
      exact hloop
    · simp only [List.map_cons, List.mem_cons, not_or] at hy
      exact hR y hy.1 hy.2 hs'
    · simp only [List.map_cons, List.mem_cons, not_or] at hy
      exact hP e' he' y hy.1 hy.2 hs'
    · simp only [List.map_cons, loopTuples, List.map_flatMap]
      exact hproj

end Nest

/-- The global ids: each `x_d = dppy.get_global_id(d)` binds `x_d` and records nothing. -/
theorem exec_gidStmts (legalLoopIndices : List String) (rest : PyStmt) (ds : List Nat) (env : PyEnv) :
    exec gid sentinelName ((ds.map (gidStmt legalLoopIndices)).foldr .seq rest) env =
      exec gid sentinelName rest (ds.foldl (fun env d =>
        Function.update env (legalLoopIndices.getD d "") (some (gid d))) env) := by
  induction ds generalizing env with
  | nil => rfl
  | cons d ds ih =>
    have h : exec gid sentinelName (gidStmt legalLoopIndices d) env =
        some ([], Function.update env (legalLoopIndices.getD d "") (some (gid d)), false) := by
      simp [exec, gidStmt, evalExpr, Int.natCast_nonneg]
    rw [List.map_cons, List.foldr_cons, exec_seq_of_silent gid sentinelName h, ih]
    rfl

theorem foldl_update_of_not_mem (f : Nat → String) (w : Nat → Option Int) (ds : List Nat)
    (env : PyEnv) {y : String} (hy : y ∉ ds.map f) :
    ds.foldl (fun env d => Function.update env (f d) (w d)) env y = env y := by
  induction ds generalizing env with
  | nil => rfl
  | cons d ds ih =>
    simp only [List.map_cons, List.mem_cons, not_or] at hy
    rw [List.foldl_cons, ih _ hy.2, Function.update_noteq hy.1]

theorem foldl_update_of_mem (f : Nat → String) (w : Nat → Option Int) {ds : List Nat}
    (hds : (ds.map f).Nodup) (env : PyEnv) {d : Nat} (hd : d ∈ ds) :
    ds.foldl (fun env d => Function.update env (f d) (w d)) env (f d) = w d := by
  induction ds generalizing env with
  | nil => simp at hd
  | cons d' ds ih =>
    rw [List.map_cons, List.nodup_cons] at hds
    rw [List.foldl_cons]
    rcases List.mem_cons.1 hd with rfl | hd
    · rw [foldl_update_of_not_mem f w ds _ hds.1, Function.update_same]
    · exact ih hds.2 _ hd

variable {parforParams : List String} {parforDim : Nat} {legalLoopIndices : List String}
  {loopRanges : List (Bound × Bound × Bound)} {paramDict : List (String × String)}

/-- **The run of the stub.**  A work-item whose global ids are `gid`, called with an argument for
each parameter, returns; it records the sentinel's assignment once for each tuple of the ranges
`range(start, stop + 1)` of the serialised loops, in order, with the indices of the serialised loops
holding the tuple and the first indices holding the global ids. -/
theorem call_stubFunc
    (hin : StubInputs parforParams parforDim legalLoopIndices loopRanges paramDict sentinelName)
    (parforId : Nat) {args : List Int} (hargs : parforParams.length ≤ args.length) :
    ∃ t env, call gid sentinelName (stubFunc parforId parforParams parforDim legalLoopIndices
        loopRanges paramDict sentinelName) args = some (t, env, true) ∧
      (∀ e ∈ t, ∀ d < globalIdDim parforDim, e (legalLoopIndices.getD d "") = some (gid d)) ∧
      t.map (fun e => (serialDims parforDim).map fun i => e (legalLoopIndices.getD i "")) =
        (loopTuples ((serialDims parforDim).map fun i =>
          pyRange (boundValue parforParams args paramDict
              (loopRanges.getD i (.const 0, .const 0, .const 1)).1)
            (boundValue parforParams args paramDict
              (loopRanges.getD i (.const 0, .const 0, .const 1)).2.1 + 1))).map (·.map some) := by
  have hg : ∀ d ∈ List.range (globalIdDim parforDim), d < parforDim := fun d hd =>
    Nat.lt_of_lt_of_le (List.mem_range.1 hd) (globalIdDim_le _)
  have hs : ∀ e ∈ serialDims parforDim, e < parforDim := fun e he => (mem_serialDims.1 he).2
  -- The loop variables are indices, and the global ids are bound to the others.
  have hvars : ∀ y ∈ (serialDims parforDim).map fun e =>
      (stubLoop legalLoopIndices loopRanges paramDict e).1, y ∈ legalLoopIndices := fun y hy => by
    obtain ⟨e, he, rfl⟩ := List.mem_map.1 hy
    exact hin.index_mem (hs e he)
  have henv : ∀ y ∈ parforParams, y ∉ legalLoopIndices →
      (List.range (globalIdDim parforDim)).foldl (fun env d =>
        Function.update env (legalLoopIndices.getD d "") (some (gid d)))
        (fun y => (parforParams.zip args).lookup y) y = (parforParams.zip args).lookup y :=
    fun y _ hy => foldl_update_of_not_mem _ _ _ _ fun h => by
      obtain ⟨d, hd, rfl⟩ := List.mem_map.1 h
      exact hy (hin.index_mem (hg d hd))
  obtain ⟨t, env₂, hex, -, hP, hproj⟩ := exec_nestStmt gid sentinelName
    (stubLoop legalLoopIndices loopRanges paramDict)
    (fun i => boundValue parforParams args paramDict (loopRanges.getD i (.const 0, .const 0, .const 1)).1)
    (fun i => boundValue parforParams args paramDict
      (loopRanges.getD i (.const 0, .const 0, .const 1)).2.1)
    (serialDims parforDim) (hin.nodup_indices (List.nodup_range' _ _) hs)
    (fun h => hin.sentinel_fresh (hvars _ h))
    (fun e he y hy => by
      have hb := hin.bound (hs e he)
      obtain ⟨-, hy, hys⟩ := (List.mem_append.1 hy).elim (names_boundExpr hb.1 y) (names_boundExpr hb.2 y)
      exact ⟨fun h => hy (hvars y h), hys⟩)
    _ (fun e he => ⟨evalExpr_boundExpr hargs henv (hin.bound (hs e he)).1,
      evalExpr_boundExpr hargs henv (hin.bound (hs e he)).2⟩)
  refine ⟨t, env₂, ?_, fun e he d hd => ?_, hproj⟩
  · have hret : exec gid sentinelName (.seq .retNone .skip) env₂ = some ([], env₂, true) := rfl
    simpa [call, stubFunc, exec_gidStmts] using exec_seq_continue gid sentinelName hex hret
  · have hd' := hg d (List.mem_range.2 hd)
    have hnot : legalLoopIndices.getD d "" ∉ (serialDims parforDim).map fun e =>
        (stubLoop legalLoopIndices loopRanges paramDict e).1 := fun h => by
      obtain ⟨e, he, h⟩ := List.mem_map.1 h
      have := hin.index_inj (hs e he) hd' h
      have := (mem_serialDims.1 he).1
      omega
    rw [hP e he _ hnot fun h => hin.sentinel_fresh (h ▸ hin.index_mem hd'),
      foldl_update_of_mem (fun d => legalLoopIndices.getD d "") (fun d => some (gid d))
        (hin.nodup_indices (List.nodup_range _) hg) _ (List.mem_range.2 hd)]

end Run

/-! ### The stub, read and run -/

section Main

variable {parforParams : List String} {parforDim : Nat} {legalLoopIndices : List String}
  {loopRanges : List (Bound × Bound × Bound)} {paramDict : List (String × String)}
  {sentinelName : String}

/-- **The stub, read and run.**  For every depth up to 23, every list of distinct index names and
every list of bounds that print as parameters or integer constants, Python reads the stub's text
as `stubFunc`: the first (at most three) indices bound to `dppy.get_global_id(d)`, then the loops of
the remaining dimensions nested in dimension order with the sentinel's assignment innermost, then
`return None`.  A work-item called with an argument for each parameter returns, and runs the
sentinel's assignment once for each tuple of the loops' ranges `range(start, stop + 1)`, in order,
with its global ids bound. -/
theorem gufuncTxt_spec
    (hin : StubInputs parforParams parforDim legalLoopIndices loopRanges paramDict sentinelName)
    (hdepth : parforDim ≤ 23) (parforId : Nat) (gid : Nat → Int) {args : List Int} (hargs : parforParams.length ≤ args.length) :
    readFunc (gufuncTxt parforId parforParams parforDim legalLoopIndices loopRanges paramDict
        sentinelName) =
      some (stubFunc parforId parforParams parforDim legalLoopIndices loopRanges paramDict
        sentinelName) ∧
    ∃ t env, call gid sentinelName (stubFunc parforId parforParams parforDim legalLoopIndices
        loopRanges paramDict sentinelName) args = some (t, env, true) ∧
      (∀ e ∈ t, ∀ d < globalIdDim parforDim, e (legalLoopIndices.getD d "") = some (gid d)) ∧
      t.map (fun e => (serialDims parforDim).map fun i => e (legalLoopIndices.getD i "")) =
        (loopTuples ((serialDims parforDim).map fun i =>
          pyRange (boundValue parforParams args paramDict
              (loopRanges.getD i (.const 0, .const 0, .const 1)).1)
            (boundValue parforParams args paramDict
              (loopRanges.getD i (.const 0, .const 0, .const 1)).2.1 + 1))).map (·.map some) :=
  ⟨readFunc_gufuncTxt _ hin hdepth parforId, call_stubFunc gid _ hin parforId hargs⟩

end Main

/-- The ranges of a depth-four parfor whose first three dimensions run over `range(0, a)` and whose
fourth runs over `range(0, n)`. -/
def depthFourRanges : List (Bound × Bound × Bound) :=
  [(.const 0, .var "a", .const 1), (.const 0, .var "a", .const 1), (.const 0, .var "a", .const 1),
    (.const 0, .var "n", .const 1)]

theorem gufuncTxt_spec_depthFour :
    StubInputs ["a", "n"] 4 ["i0", "i1", "i2", "i3"] depthFourRanges [("a", "a"), ("n", "n")]
        "__sentinel__" ∧ 4 ≤ 23 ∧ ["a", "n"].length ≤ [4, 2].length ∧
    (readFunc (gufuncTxt 0 ["a", "n"] 4 ["i0", "i1", "i2", "i3"] depthFourRanges
        [("a", "a"), ("n", "n")] "__sentinel__") =
      some (stubFunc 0 ["a", "n"] 4 ["i0", "i1", "i2", "i3"] depthFourRanges
        [("a", "a"), ("n", "n")] "__sentinel__") ∧
    ∃ t env, call (fun _ => 0) "__sentinel__" (stubFunc 0 ["a", "n"] 4 ["i0", "i1", "i2", "i3"]
        depthFourRanges [("a", "a"), ("n", "n")] "__sentinel__") [4, 2] = some (t, env, true) ∧
      (∀ e ∈ t, ∀ d < globalIdDim 4, e (["i0", "i1", "i2", "i3"].getD d "") = some 0) ∧
      t.map (fun e => (serialDims 4).map fun i => e (["i0", "i1", "i2", "i3"].getD i "")) =
        (loopTuples ((serialDims 4).map fun i =>
          pyRange (boundValue ["a", "n"] [4, 2] [("a", "a"), ("n", "n")]
              (depthFourRanges.getD i (.const 0, .const 0, .const 1)).1)
            (boundValue ["a", "n"] [4, 2] [("a", "a"), ("n", "n")]
              (depthFourRanges.getD i (.const 0, .const 0, .const 1)).2.1 + 1))).map
          (·.map some)) :=
  have hin : StubInputs ["a", "n"] 4 ["i0", "i1", "i2", "i3"] depthFourRanges
      [("a", "a"), ("n", "n")] "__sentinel__" :=
    ⟨by decide, by decide, rfl, by decide, by decide, by decide, by decide, rfl, by decide⟩
  ⟨hin, by decide, le_refl _, gufuncTxt_spec hin (by decide) 0 (fun _ => 0) (le_refl _)⟩

/-- **The stub runs the stop.**  In a depth-four parfor whose fourth dimension's `LoopNest` runs
over `range(0, n)`, called with `n = 2`, the work-item runs the sentinel's assignment with the
fourth index equal to `0`, `1` and `2`: also at the stop, which `range(0, 2)` does not hold. -/
theorem gufuncTxt_runs_stop :
    ((readFunc (gufuncTxt 0 ["a", "n"] 4 ["i0", "i1", "i2", "i3"] depthFourRanges
        [("a", "a"), ("n", "n")] "__sentinel__")).bind fun f =>
      call (fun _ => 0) "__sentinel__" f [4, 2]).map (fun o => o.1.map fun e => e "i3") =
      some [some 0, some 1, some 2] ∧ (2 : Int) ∉ pyRange 0 2 :=
  ⟨by decide, by decide⟩

end ParforOffload
