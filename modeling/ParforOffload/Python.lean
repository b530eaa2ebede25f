/-
**The subset of Python the kernel stub is written in.**

`_create_gufunc_for_parfor_body` hands the text of the stub to Python (`exec`), which reads it
and defines the function.  This module models that reading for the constructs the stub uses:
the text is split into physical lines, blank lines are dropped, the indentation of each is
measured and its characters are split into tokens; the block structure follows from the
indentation (a line indented more than its block is an `IndentationError` unless it opens the
body of a loop), and the statements from the tokens.  The compiler then refuses a function whose
loops nest more than twenty deep.  A small interpreter runs a function body for one work-item,
whose `dppy.get_global_id(d)` is `gid d`.

Main definitions:

* `ParforOffload.logicalLines`, `ParforOffload.lexAux` — lines and tokens;
* `ParforOffload.parseBlock`, `ParforOffload.parseFunc`, `ParforOffload.readFunc` — Python's
  reading of one function, and the compiler's limit on nested loops;
* `ParforOffload.exec`, `ParforOffload.call` — running it.

The lemmas say what each reader does on the pieces the stub is made of, with an arbitrary rest
after them, so that they compose along the text.
-/

import ParforOffload.Ir

set_option autoImplicit false

namespace ParforOffload

/-! ### How Python reads it -/

/-- A token of the stub's text. -/
inductive Tok where
  | name (s : String)
  | num (n : Nat)
  | op (c : Char)
  /-- A character or a word Python does not accept here. -/
  | error
  deriving DecidableEq, Repr

/-- The characters of names and numbers. -/
def isWordChar (c : Char) : Bool := c.isAlphanum || c == '_'

/-- The token of a maximal run of word characters: a number if all are digits, a name if the
first is not a digit. -/
def wordToks (w : List Char) : List Tok :=
  if w = [] then []
  else if w.all Char.isDigit then [.num (decimalValue w)]
  else if w.head?.map Char.isDigit = some true then [.error]
  else [.name ⟨w⟩]

/-- The token of an operator or delimiter character. -/
def opTok (c : Char) : Tok :=
  if c ∈ ['(', ')', ',', ':', '=', '+', '-', '.'] then .op c else .error

/-- The tokens of a line, the word read so far being `w`. -/
def lexAux : List Char → List Char → List Tok
  | w, [] => wordToks w
  | w, c :: cs =>
    if isWordChar c then lexAux (w ++ [c]) cs
    else if c = ' ' then wordToks w ++ lexAux [] cs
    else wordToks w ++ opTok c :: lexAux [] cs

/-- A logical line: the width of its indentation and its tokens. -/
abbrev LogicalLine := Nat × List Tok

/-- The logical lines of a text: its physical lines that are not blank, each with its leading
spaces counted and the rest split into tokens. -/
def logicalLines (src : String) : List LogicalLine :=
  ((src.data.splitOn '\n').filter fun l => l.any (· != ' ')).map fun l =>
    ((l.takeWhile (· == ' ')).length, lexAux [] (l.dropWhile (· == ' ')))

/-- The expressions of the stub: names, integers and sums. -/
inductive PyExpr where
  | name (x : String)
  | int (n : Int)
  | add (a b : PyExpr)
  deriving DecidableEq, Repr

/-- The statements of the stub; a block is a chain of `seq` ending in `skip`. -/
inductive PyStmt where
  | skip
  | seq (s t : PyStmt)
  /-- `x = n`. -/
  | assignConst (x : String) (n : Int)
  /-- `x = obj.attr(arg)`. -/
  | assignCall (x : String) (obj attr : String) (arg : PyExpr)
  /-- `for x in range(a, b):` and its body. -/
  | forRange (x : String) (a b : PyExpr) (body : PyStmt)
  /-- `return None`. -/
  | retNone
  deriving DecidableEq, Repr

/-- A function definition: its name, its parameters and its body. -/
structure PyFunc where
  name : String
  params : List String
  body : PyStmt
  deriving DecidableEq, Repr

/-- Python's keywords, which are not names. -/
def pyKeywords : List String :=
  ["False", "None", "True", "and", "as", "assert", "async", "await", "break", "class",
    "continue", "def", "del", "elif", "else", "except", "finally", "for", "from", "global", "if",
    "import", "in", "is", "lambda", "nonlocal", "not", "or", "pass", "raise", "return", "try",
    "while", "with", "yield"]

/-- An atom: a name, a number, or a negated number. -/
def parseAtom : List Tok → Option (PyExpr × List Tok)
  | .name x :: rest => if x ∈ pyKeywords then none else some (.name x, rest)
  | .num n :: rest => some (.int n, rest)
  | .op '-' :: .num n :: rest => some (.int (-n), rest)
  | _ => none

/-- An atom, or the sum of two. -/
def parseExpr (toks : List Tok) : Option (PyExpr × List Tok) := do
  let (a, rest) ← parseAtom toks
  match rest with
  | .op '+' :: rest => do
    let (b, rest) ← parseAtom rest
    some (.add a b, rest)
  | _ => some (a, rest)

/-- The header `for x in range(a, b):` of a loop. -/
def parseForHeader : List Tok → Option (String × PyExpr × PyExpr)
  | .name "for" :: .name x :: .name "in" :: .name "range" :: .op '(' :: rest => do
    if x ∈ pyKeywords then none
    let (a, rest) ← parseExpr rest
    match rest with
    | .op ',' :: rest => do
      let (b, rest) ← parseExpr rest
      if rest = [.op ')', .op ':'] then some (x, a, b) else none
    | _ => none
  | _ => none

/-- A simple statement: an assignment of a number or of a method call, or `return None`. -/
def parseSimple : List Tok → Option PyStmt
  | [.name "return", .name "None"] => some .retNone
  | [.name x, .op '=', .num n] => if x ∈ pyKeywords then none else some (.assignConst x n)
  | .name x :: .op '=' :: .name obj :: .op '.' :: .name attr :: .op '(' :: rest => do
    if x ∈ pyKeywords ∨ obj ∈ pyKeywords ∨ attr ∈ pyKeywords then none
    let (arg, rest) ← parseExpr rest
    if rest = [.op ')'] then some (.assignCall x obj attr arg) else none
  | _ => none

/-- The parameter list of a `def`, after its `(`. -/
def parseParams : List Tok → Option (List String)
  | [.op ')', .op ':'] => some []
  | [.name x, .op ')', .op ':'] => if x ∈ pyKeywords then none else some [x]
  | .name x :: .op ',' :: rest => if x ∈ pyKeywords then none else (x :: ·) <$> parseParams rest
  | _ => none

/-- The statements of a block indented `ind`, up to the first line indented less, and the lines
after them.  A line indented more that does not open a loop's body, or a loop without a body
indented more than its header, is an `IndentationError`. -/
def parseBlock : Nat → Nat → List LogicalLine → Option (PyStmt × List LogicalLine)
  | 0, _, _ => none
  | _ + 1, _, [] => some (.skip, [])
  | fuel + 1, ind, (k, toks) :: rest =>
    if k < ind then some (.skip, (k, toks) :: rest)
    else if ind < k then none
    else match parseForHeader toks, rest with
      | some (x, a, b), (k', _) :: _ =>
        if k' ≤ ind then none else do
          let (body, rest) ← parseBlock fuel k' rest
          let (more, rest) ← parseBlock fuel ind rest
          some (.seq (.forRange x a b body) more, rest)
      | some _, [] => none
      | none, _ => do
        let s ← parseSimple toks
        let (more, rest) ← parseBlock fuel ind rest
        some (.seq s more, rest)

/-- A text that holds one function definition, parsed as Python's parser reads it; a parameter
named twice is a `SyntaxError`. -/
def parseFunc (src : String) : Option PyFunc :=
  match logicalLines src with
  | (0, .name "def" :: .name f :: .op '(' :: rest) :: body => do
    if f ∈ pyKeywords then none
    let params ← parseParams rest
    if ¬ params.Nodup then none
    match body with
    | (k, _) :: _ =>
      if k = 0 then none else do
        let (stmts, rest) ← parseBlock (body.length + 1) k body
        if rest = [] then some ⟨f, params, stmts⟩ else none
    | [] => none
  | _ => none

/-- How deeply `for` loops nest in a statement. -/
def PyStmt.loopDepth : PyStmt → Nat
  | .seq s t => max s.loopDepth t.loopDepth
  | .forRange _ _ _ body => body.loopDepth + 1
  | _ => 0

/-- Modelled from CPython: `CO_MAXBLOCKS`, the number of blocks its compiler lets nest statically
in a function; one more is `SyntaxError: too many statically nested blocks`, and each `for` loop
is one such block. -/
def maxStaticBlocks : Nat := 20

/-- A text that holds one function definition, read as `exec` reads it: parsed, then refused by
the compiler when its loops nest more deeply than `maxStaticBlocks`. -/
def readFunc (src : String) : Option PyFunc := do
  let f ← parseFunc src
  if f.body.loopDepth ≤ maxStaticBlocks then some f else none

/-! ### Running a function -/

/-- The variables of a run. -/
abbrev PyEnv := String → Option Int

def evalExpr (env : PyEnv) : PyExpr → Option Int
  | .name x => env x
  | .int n => some n
  | .add a b => do return (← evalExpr env a) + (← evalExpr env b)

/-- Python's `range(a, b)`. -/
def pyRange (a b : Int) : List Int := (List.range (b - a).toNat).map (a + ·)

/-- The tuples a nest of loops over the ranges `rs` visits, in order: the outermost loop's value
first, and changing slowest. -/
def loopTuples : List (List Int) → List (List Int)
  | [] => [[]]
  | r :: rs => r.flatMap fun v => (loopTuples rs).map (v :: ·)

/-- What a run of a statement gives: the environments in which it assigned the sentinel, the
environment after it, and whether it returned. -/
abbrev Outcome := List PyEnv × PyEnv × Bool

/-- A loop over `vs`, with body `body`. -/
def loopOver (body : PyEnv → Option Outcome) (x : String) : List Int → PyEnv → Option Outcome
  | [], env => some ([], env, false)
  | v :: vs, env => do
    let (t, env, ret) ← body (Function.update env x (some v))
    if ret then return (t, env, true)
    let (t', env, ret) ← loopOver body x vs env
    return (t ++ t', env, ret)

/-- A run of a statement by the work-item whose global ids are `gid`; `none` is an exception. -/
def exec (gid : Nat → Int) (sentinel : String) : PyStmt → PyEnv → Option Outcome
  | .skip, env => some ([], env, false)
  | .seq s t, env => do
    let (t₁, env, ret) ← exec gid sentinel s env
    if ret then return (t₁, env, true)
    let (t₂, env, ret) ← exec gid sentinel t env
    return (t₁ ++ t₂, env, ret)
  | .assignConst x n, env =>
    some (if x = sentinel then [env] else [], Function.update env x (some n), false)
  | .assignCall x obj attr arg, env => do
    let v ← evalExpr env arg
    if obj = "dppy" ∧ attr = "get_global_id" ∧ 0 ≤ v then
      some ([], Function.update env x (some (gid v.toNat)), false)
    else none
  | .forRange x a b body, env => do
    loopOver (exec gid sentinel body) x (pyRange (← evalExpr env a) (← evalExpr env b)) env
  | .retNone, env => some ([], env, true)

/-- A call of a function with the arguments `args`. -/
def call (gid : Nat → Int) (sentinel : String) (f : PyFunc) (args : List Int) : Option Outcome :=
  exec gid sentinel f.body fun x => (f.params.zip args).lookup x

/-! ### Physical and logical lines -/

section Lines

/-- A text made of lines that each end in a line break splits into those lines and an empty one. -/
theorem splitOn_lines (ls : List (List Char)) (hls : ∀ l ∈ ls, '\n' ∉ l) :
    (ls.map (· ++ ['\n'])).flatten.splitOn '\n' = ls ++ [[]] := by
  induction ls with
  | nil => rfl
  | cons l ls ih =>
    simp only [List.map_cons, List.flatten_cons, List.append_assoc, List.singleton_append,
      List.cons_append]
    rw [List.splitOn, List.splitOnP_first (· == '\n') l (fun c hc hn =>
        hls l (List.mem_cons_self _ _) (eq_of_beq hn ▸ hc)) _ (by simp), List.nil_append,
      ← List.splitOn, ih fun l' hl' => hls l' (List.mem_cons_of_mem _ hl')]

/-- A line indented by `k` spaces, whose text starts with another character. -/
theorem takeWhile_indent (k : Nat) {c : Char} (cs : List Char) (hc : c ≠ ' ') :
    (List.replicate k ' ' ++ c :: cs).takeWhile (· == ' ') = List.replicate k ' ' ∧
      (List.replicate k ' ' ++ c :: cs).dropWhile (· == ' ') = c :: cs := by
  induction k with
  | zero => simp [List.takeWhile, List.dropWhile, beq_false_of_ne hc]
  | succ k ih => simp [List.replicate_succ, List.takeWhile, List.dropWhile, ih.1, ih.2]

/-- **The lines of a text.**  A text made of lines, each of some spaces and then a text that does
not start with one, each ending in a line break, reads as those lines: the width of their
indentation, and the tokens of the rest. -/
theorem logicalLines_eq (src : String) (ls : List (Nat × List Char))
    (hls : ∀ p ∈ ls, '\n' ∉ p.2 ∧ ∃ c cs, p.2 = c :: cs ∧ c ≠ ' ')
    (hsrc : src.data = (ls.map fun p => List.replicate p.1 ' ' ++ p.2 ++ ['\n']).flatten) :
    logicalLines src = ls.map fun p => (p.1, lexAux [] p.2) := by
  have hlines := splitOn_lines (ls.map fun p => List.replicate p.1 ' ' ++ p.2) (by
    simp only [List.mem_map]
    rintro _ ⟨p, hp, rfl⟩ hn
    rcases List.mem_append.1 hn with hn | hn
    · exact absurd (List.eq_of_mem_replicate hn) (by decide)
    · exact (hls p hp).1 hn)
  simp only [List.map_map, Function.comp_def] at hlines
  have hne : ∀ p ∈ ls, (List.replicate p.1 ' ' ++ p.2).any (· != ' ') = true := by
    intro p hp
    obtain ⟨c, cs, hcs, hc⟩ := (hls p hp).2
    simp only [hcs, List.any_append, List.any_cons, Bool.or_eq_true, bne_iff_ne]
    exact Or.inr (Or.inl hc)
  rw [logicalLines, hsrc, hlines, List.filter_append, List.filter_eq_self.2 fun l hl => by
    obtain ⟨p, hp, rfl⟩ := List.mem_map.1 hl
    exact hne p hp]
  simp only [List.filter_cons, List.any_nil, Bool.false_eq_true, if_false, List.filter_nil,
    List.append_nil, List.map_map]
  refine List.map_congr_left fun p hp => ?_
  obtain ⟨c, cs, hcs, hc⟩ := (hls p hp).2
  obtain ⟨ht, hd⟩ := takeWhile_indent p.1 cs hc
  simp only [Function.comp_apply, hcs, ht, hd, List.length_replicate]

end Lines

/-! ### Tokens -/

section Tokens

/-- A name Python reads as one name token: word characters, the first not a digit, and not a
keyword. -/
def IsIdent (x : String) : Prop :=
  x.data ≠ [] ∧ (∀ c ∈ x.data, isWordChar c = true) ∧ x.data.head?.map Char.isDigit ≠ some true ∧
    x ∉ pyKeywords

instance : DecidablePred IsIdent := fun _ => inferInstanceAs (Decidable (_ ∧ _ ∧ _ ∧ _))

@[simp] theorem wordToks_nil : wordToks [] = [] := rfl

theorem lexAux_append_word {w : List Char} (hw : ∀ c ∈ w, isWordChar c = true) (acc rest : List Char) :
    lexAux acc (w ++ rest) = lexAux (acc ++ w) rest := by
  induction w generalizing acc with
  | nil => simp
  | cons c w ih =>
    simp [lexAux, hw c (List.mem_cons_self _ _), ih fun c hc => hw c (List.mem_cons_of_mem _ hc)]

/-- A text that starts with a character that is not a word character ends the word before it. -/
theorem lexAux_append_of_head (w a b : List Char) (hb : b.head?.all (fun c => !isWordChar c)) :
    lexAux w (a ++ b) = lexAux w a ++ lexAux [] b := by
  induction a generalizing w with
  | nil =>
    cases b with
    | nil => simp [lexAux, wordToks]
    | cons c b =>
      simp only [List.head?_cons, Option.all_some, Bool.not_eq_true'] at hb
      simp only [lexAux, hb, Bool.false_eq_true, if_false, wordToks_nil, List.nil_append]
      split <;> rfl
  | cons c a ih =>
    by_cases hc : isWordChar c
    · simp [lexAux, hc, ih]
    · simp only [lexAux, hc, Bool.false_eq_true, if_false]
      split <;> simp [ih]

/-- A text that ends with a character that is not a word character leaves no word behind. -/
theorem lexAux_append_of_last (a b : List Char) (ha : a.getLast?.all (fun c => !isWordChar c)) :
    lexAux [] (a ++ b) = lexAux [] a ++ lexAux [] b := by
  induction a using List.reverseRecOn with
  | nil => simp [lexAux]
  | append_singleton a c _ =>
    simp only [List.getLast?_concat, Option.all_some, Bool.not_eq_true'] at ha
    rw [List.append_assoc, List.singleton_append, lexAux_append_of_head _ a _ (by simp [ha]),
      lexAux_append_of_head _ a [c] (by simp [ha])]
    simp only [lexAux, ha, Bool.false_eq_true, if_false, wordToks_nil, List.nil_append]
    split <;> simp

theorem wordToks_ident {x : String} (hx : IsIdent x) : wordToks x.data = [.name x] := by
  obtain ⟨hne, -, hd, -⟩ := hx
  have hall : x.data.all Char.isDigit = false := by
    obtain ⟨c, cs, hcs⟩ := List.exists_cons_of_ne_nil hne
    simp only [hcs, List.head?_cons, Option.map_some', ne_eq, Option.some.injEq,
      Bool.not_eq_true] at hd
    simp [hcs, hd]
  simp [wordToks, hne, hall, hd]

/-- An identifier lexes as one name. -/
theorem lexAux_ident {x : String} (hx : IsIdent x) : lexAux [] x.data = [.name x] := by
  rw [← List.append_nil x.data, lexAux_append_word hx.2.1, List.nil_append, lexAux, wordToks_ident hx]

/-- An identifier, then a character that is not a word character. -/
theorem lexAux_ident_append {x : String} (hx : IsIdent x) (b : List Char)
    (hb : b.head?.all fun c => !isWordChar c) : lexAux [] (x.data ++ b) = .name x :: lexAux [] b := by
  rw [lexAux_append_of_head _ _ _ hb, lexAux_ident hx]
  rfl

/-- A line break inside a line is not a token: it reads as an error. -/
theorem error_mem_lexAux_of_newline {l : List Char} (hl : '\n' ∈ l) (w : List Char) :
    Tok.error ∈ lexAux w l := by
  induction l generalizing w with
  | nil => simp at hl
  | cons c l ih =>
    rcases List.mem_cons.1 hl with rfl | hl
    · simp [lexAux, isWordChar, opTok]
    · unfold lexAux
      split_ifs <;> simp [ih hl]

theorem isDigit_of_mem_toDigitsCore (fuel n : Nat) : ∀ c ∈ Nat.toDigitsCore 10 fuel n [], c.isDigit := by
  have hd : ∀ k, k < 10 → (Nat.digitChar k).isDigit = true := by decide
  induction fuel generalizing n with
  | zero => simp [Nat.toDigitsCore]
  | succ fuel ih =>
    simp only [Nat.toDigitsCore]
    split
    · simpa using hd _ (Nat.mod_lt n (by omega))
    · rw [toDigitsCore_ten_append]
      intro c hc
      rcases List.mem_append.1 hc with hc | hc
      · exact ih _ c hc
      · rw [List.mem_singleton.1 hc]
        exact hd _ (Nat.mod_lt n (by omega))

/-- A natural number lexes as one number. -/
theorem lexAux_nat (n : Nat) : lexAux [] (toString n).data = [.num n] := by
  have hdig : ∀ c ∈ (toString n).data, c.isDigit := isDigit_of_mem_toDigitsCore (n + 1) n
  have hne : (toString n).data ≠ [] := by
    show Nat.toDigitsCore 10 (n + 1) n [] ≠ []
    rw [Nat.toDigitsCore]
    split
    · simp
    · rw [toDigitsCore_ten_append]; simp
  have hw : ∀ c ∈ (toString n).data, isWordChar c := fun c hc => by
    simp [isWordChar, Char.isAlphanum, hdig c hc]
  rw [← List.append_nil (toString n).data, lexAux_append_word hw, List.nil_append, lexAux]
  simp only [wordToks, hne, if_false, List.all_eq_true.2 hdig, if_true]
  exact congrArg (fun m => [Tok.num m]) (decimalValue_toDigitsCore (n + 1) n (by omega))

/-- The tokens of an integer literal. -/
def intToks : Int → List Tok
  | .ofNat n => [.num n]
  | .negSucc n => [.op '-', .num (n + 1)]

/-- An integer lexes as a number, after a minus sign if it is negative. -/
theorem lexAux_int (n : Int) : lexAux [] (toString n).data = intToks n := by
  cases n with
  | ofNat n => exact lexAux_nat n
  | negSucc n =>
    show lexAux [] ('-' :: (toString (n + 1)).data) = _
    simp [lexAux, isWordChar, opTok, lexAux_nat, intToks]

end Tokens

/-! ### Expressions and statements -/

section Parse

/-- The tokens of an expression, printed as the stub prints it. -/
def exprToks : PyExpr → List Tok
  | .name x => [.name x]
  | .int n => intToks n
  | .add a b => exprToks a ++ .op '+' :: exprToks b

/-- An atom the parser accepts. -/
def IsAtom : PyExpr → Prop
  | .name x => x ∉ pyKeywords
  | .int _ => True
  | .add _ _ => False

/-- An expression the parser accepts: an atom, or the sum of two. -/
def IsExpr : PyExpr → Prop
  | .add a b => IsAtom a ∧ IsAtom b
  | e => IsAtom e

theorem IsAtom.isExpr {a : PyExpr} (ha : IsAtom a) : IsExpr a := by
  cases a with
  | add => exact ha.elim
  | _ => exact ha

theorem parseAtom_exprToks {a : PyExpr} (ha : IsAtom a) (rest : List Tok) :
    parseAtom (exprToks a ++ rest) = some (a, rest) := by
  match a, ha with
  | .name x, ha => simp [exprToks, parseAtom, show x ∉ pyKeywords from ha]
  | .int (.ofNat n), _ => rfl
  | .int (.negSucc n), _ => rfl

theorem parseExpr_atom {a : PyExpr} (ha : IsAtom a) {rest : List Tok}
    (hr : rest.head? ≠ some (.op '+')) : parseExpr (exprToks a ++ rest) = some (a, rest) := by
  simp only [parseExpr, parseAtom_exprToks ha, Option.bind_eq_bind, Option.some_bind]
  split
  · simp_all
  · rfl

/-- An expression reads back from its tokens, whatever follows that is not a `+`. -/
theorem parseExpr_exprToks {e : PyExpr} (he : IsExpr e) {rest : List Tok}
    (hr : rest.head? ≠ some (.op '+')) : parseExpr (exprToks e ++ rest) = some (e, rest) := by
  match e, he with
  | .add a b, ⟨ha, hb⟩ =>
    simp only [parseExpr, exprToks, List.append_assoc, List.cons_append, parseAtom_exprToks ha,
      Option.bind_eq_bind, Option.some_bind, parseAtom_exprToks hb]
  | .name x, he => exact @parseExpr_atom (.name x) he _ hr
  | .int n, he => exact @parseExpr_atom (.int n) he _ hr

theorem parseForHeader_name {x : String} (hx : x ≠ "for") (rest : List Tok) :
    parseForHeader (.name x :: rest) = none := by
  simp [parseForHeader, hx]

/-- The header of a loop over `range(a, b)`. -/
theorem parseForHeader_range {x : String} {a b : PyExpr} (hx : x ∉ pyKeywords) (ha : IsExpr a)
    (hb : IsExpr b) :
    parseForHeader (.name "for" :: .name x :: .name "in" :: .name "range" :: .op '(' ::
      (exprToks a ++ .op ',' :: (exprToks b ++ [.op ')', .op ':']))) = some (x, a, b) := by
  simp only [parseForHeader, hx, ↓reduceIte, Option.pure_def, List.head?_cons, ne_eq,
    Option.some.injEq, Tok.op.injEq, Char.reduceEq, not_false_eq_true, parseExpr_exprToks ha,
    Option.bind_eq_bind, Option.some_bind, parseExpr_exprToks hb]

theorem parseSimple_assignConst {x : String} (hx : x ∉ pyKeywords) (n : Nat) :
    parseSimple [.name x, .op '=', .num n] = some (.assignConst x n) := by
  simp [parseSimple, hx]

theorem parseSimple_assignCall {x obj attr : String} (hx : x ∉ pyKeywords)
    (hobj : obj ∉ pyKeywords) (hattr : attr ∉ pyKeywords) {e : PyExpr} (he : IsExpr e) :
    parseSimple (.name x :: .op '=' :: .name obj :: .op '.' :: .name attr :: .op '(' ::
      (exprToks e ++ [.op ')'])) = some (.assignCall x obj attr e) := by
  simp only [parseSimple, hx, hobj, hattr, or_self, ↓reduceIte, Option.pure_def, List.head?_cons,
    ne_eq, Option.some.injEq, Tok.op.injEq, Char.reduceEq, not_false_eq_true, parseExpr_exprToks he,
    Option.bind_eq_bind, Option.some_bind]

/-- More fuel does not change what a block reads as. -/
theorem parseBlock_succ {fuel k : Nat} {ls : List LogicalLine} {r : PyStmt × List LogicalLine}
    (h : parseBlock fuel k ls = some r) : parseBlock (fuel + 1) k ls = some r := by
  induction fuel generalizing k ls r with
  | zero => simp [parseBlock] at h
  | succ fuel ih =>
    match ls, h with
    | [], h => exact h
    | (k', toks) :: rest, h =>
      simp only [parseBlock] at h ⊢
      split_ifs at h ⊢
      · exact h
      · revert h
        split
        · split_ifs
          · exact id
          · simp only [Option.bind_eq_bind, Option.bind_eq_some]
            rintro ⟨p, hp, q, hq, h⟩
            exact ⟨p, ih hp, q, ih hq, h⟩
        · exact id
        · simp only [Option.bind_eq_bind, Option.bind_eq_some]
          rintro ⟨s, hs, q, hq, h⟩
          exact ⟨s, hs, q, ih hq, h⟩

theorem parseBlock_mono {fuel fuel' k : Nat} {ls : List LogicalLine} {r : PyStmt × List LogicalLine}
    (h : parseBlock fuel k ls = some r) (hle : fuel ≤ fuel') : parseBlock fuel' k ls = some r := by
  induction hle with
  | refl => exact h
  | step _ ih => exact parseBlock_succ ih

theorem parseBlock_nil (fuel k : Nat) : parseBlock (fuel + 1) k [] = some (.skip, []) := rfl

/-- A line indented less than the block ends it. -/
theorem parseBlock_dedent (fuel : Nat) {k k' : Nat} (hk : k' < k) (toks : List Tok)
    (rest : List LogicalLine) :
    parseBlock (fuel + 1) k ((k', toks) :: rest) = some (.skip, (k', toks) :: rest) := by
  simp [parseBlock, hk]

/-- A block ends at the end of the text or at a line indented less. -/
theorem parseBlock_end (fuel : Nat) {k : Nat} {rest : List LogicalLine}
    (h : ∀ p ∈ rest.head?, p.1 < k) : parseBlock (fuel + 1) k rest = some (.skip, rest) := by
  match rest, h with
  | [], _ => rfl
  | (k', toks) :: rest, h => exact parseBlock_dedent fuel (h _ rfl) toks rest

/-- A simple statement, then the rest of its block. -/
theorem parseBlock_simple {fuel k : Nat} {toks : List Tok} {s more : PyStmt}
    {rest r : List LogicalLine} (hf : parseForHeader toks = none) (hs : parseSimple toks = some s)
    (hm : parseBlock fuel k rest = some (more, r)) :
    parseBlock (fuel + 1) k ((k, toks) :: rest) = some (.seq s more, r) := by
  simp [parseBlock, hf, hs, hm]

/-- A loop with its body indented more, then the rest of its block. -/
theorem parseBlock_for {fuel k k' : Nat} {toks : List Tok} {x : String} {a b : PyExpr}
    {body more : PyStmt} {lines r₁ r : List LogicalLine} (hf : parseForHeader toks = some (x, a, b))
    (hk : k < k') (hl : lines.head?.map Prod.fst = some k')
    (hb : parseBlock fuel k' lines = some (body, r₁)) (hm : parseBlock fuel k r₁ = some (more, r)) :
    parseBlock (fuel + 1) k ((k, toks) :: lines) = some (.seq (.forRange x a b body) more, r) := by
  obtain - | ⟨⟨k'', toks'⟩, rest⟩ := lines
  · simp at hl
  · obtain rfl : k'' = k' := by simpa using hl
    simp [parseBlock, hf, hb, hm, Nat.not_le.2 hk]

/-- Simple statements of one block, then the rest of the block. -/
theorem parseBlock_simples {k : Nat} {more : PyStmt} {rest r : List LogicalLine}
    (ss : List (List Tok × PyStmt))
    (hss : ∀ p ∈ ss, parseForHeader p.1 = none ∧ parseSimple p.1 = some p.2) {fuel : Nat}
    (hm : parseBlock fuel k rest = some (more, r)) :
    parseBlock (fuel + ss.length) k (ss.map (fun p => (k, p.1)) ++ rest) =
      some ((ss.map Prod.snd).foldr .seq more, r) := by
  induction ss with
  | nil => exact hm
  | cons p ss ih =>
    obtain ⟨hf, hs⟩ := hss p (List.mem_cons_self _ _)
    rw [List.length_cons, ← Nat.add_assoc, List.map_cons, List.cons_append]
    exact parseBlock_simple hf hs (ih fun q hq => hss q (List.mem_cons_of_mem _ hq))

/-- The tokens of a parameter list `p₁, p₂, …`. -/
def paramToks : List String → List Tok
  | [] => []
  | p :: ps => .name p :: ps.flatMap fun q => [.op ',', .name q]

theorem parseParams_paramToks {ps : List String} (hps : ∀ p ∈ ps, p ∉ pyKeywords) :
    parseParams (paramToks ps ++ [.op ')', .op ':']) = some ps := by
  match ps, hps with
  | [], _ => rfl
  | p :: ps, hps =>
    induction ps generalizing p with
    | nil => simp [paramToks, parseParams, hps p (List.mem_cons_self _ _)]
    | cons q ps ih =>
      have hq := ih q fun r hr => hps r (List.mem_cons_of_mem _ hr)
      simp only [paramToks, List.flatMap_cons, List.cons_append, List.singleton_append] at hq ⊢
      simp [parseParams, hps p (List.mem_cons_self _ _), hq]

/-- **Reading a function.**  A text whose first logical line is `def f(params):` and whose other
lines make one block indented more reads as the function `f` with that block as its body. -/
theorem parseFunc_eq {src f : String} {ptoks : List Tok} {ps : List String} {k : Nat}
    {body : List LogicalLine} {stmts : PyStmt}
    (hl : logicalLines src = (0, .name "def" :: .name f :: .op '(' :: ptoks) :: body)
    (hf : f ∉ pyKeywords) (hp : parseParams ptoks = some ps) (hnd : ps.Nodup)
    (hk : body.head?.map Prod.fst = some k) (hk0 : k ≠ 0)
    (hb : parseBlock (body.length + 1) k body = some (stmts, [])) :
    parseFunc src = some ⟨f, ps, stmts⟩ := by
  obtain - | ⟨⟨k', t⟩, body'⟩ := body
  · simp at hk
  · obtain rfl : k' = k := by simpa using hk
    rw [List.length_cons] at hb
    simp [parseFunc, hl, hf, hp, hnd, hk0, hb]

/-- A parsed function is read exactly when its loops nest at most `maxStaticBlocks` deep. -/
theorem readFunc_of_parseFunc {src : String} {f : PyFunc} (h : parseFunc src = some f) :
    readFunc src = if f.body.loopDepth ≤ maxStaticBlocks then some f else none := by
  simp [readFunc, h]

end Parse

/-! ### Runs -/

section Run

variable (gid : Nat → Int) (sentinel : String)

/-- The names an expression reads. -/
def PyExpr.names : PyExpr → List String
  | .name x => [x]
  | .int _ => []
  | .add a b => a.names ++ b.names

/-- An expression reads only its names. -/
theorem evalExpr_congr {env env' : PyEnv} {e : PyExpr} (h : ∀ y ∈ e.names, env y = env' y) :
    evalExpr env e = evalExpr env' e := by
  induction e with
  | name x => exact h x (List.mem_singleton_self x)
  | int n => rfl
  | add a b iha ihb =>
    simp only [PyExpr.names, List.mem_append] at h
    simp only [evalExpr, iha fun y hy => h y (.inl hy), ihb fun y hy => h y (.inr hy)]

theorem mem_pyRange {a b x : Int} : x ∈ pyRange a b ↔ a ≤ x ∧ x < b := by
  simp only [pyRange, List.mem_map]
  constructor
  · rintro ⟨_, hk, rfl⟩
    obtain ⟨k, hk, rfl⟩ : ∃ k < (b - a).toNat, _ = (k : Int) := by simpa using hk
    omega
  · exact fun h => ⟨x - a, by simpa using ⟨(x - a).toNat, by omega, by omega⟩, by omega⟩

theorem pyRange_zero_natCast (m : Nat) : pyRange 0 m = (List.range m).map (↑) := by
  simp only [pyRange, Int.sub_zero, Int.toNat_ofNat, Int.zero_add, List.map_id']
  exact (List.map_eq_flatMap _ _).symm

/-- The tuples of a loop nest are the tuples of values, one from each range. -/
theorem mem_loopTuples {rs : List (List Int)} {t : List Int} :
    t ∈ loopTuples rs ↔ List.Forall₂ (· ∈ ·) t rs := by
  induction rs generalizing t with
  | nil => simp [loopTuples]
  | cons r rs ih =>
    cases t with
    | nil => simp [loopTuples]
    | cons v t => simp [loopTuples, ih]

/-- A statement that ends normally passes on to the next one. -/
theorem exec_seq_continue {s t : PyStmt} {env env' env'' : PyEnv} {tr tr' : List PyEnv}
    {ret : Bool} (h : exec gid sentinel s env = some (tr, env', false))
    (h' : exec gid sentinel t env' = some (tr', env'', ret)) :
    exec gid sentinel (.seq s t) env = some (tr ++ tr', env'', ret) := by
  simp [exec, h, h']

/-- A statement that ends normally and records nothing is passed over. -/
theorem exec_seq_of_silent {s t : PyStmt} {env env' : PyEnv}
    (h : exec gid sentinel s env = some ([], env', false)) :
    exec gid sentinel (.seq s t) env = exec gid sentinel t env' := by
  simp only [exec, h, Option.bind_eq_bind, Option.some_bind, Bool.false_eq_true, if_false,
    List.nil_append]
  cases exec gid sentinel t env' <;> rfl

/-- The argument of a parameter, in a call with enough arguments. -/
theorem lookup_zip_isSome {ps : List String} {args : List Int} {y : String} (hy : y ∈ ps)
    (hlen : ps.length ≤ args.length) : ((ps.zip args).lookup y).isSome := by
  induction ps generalizing args with
  | nil => simp at hy
  | cons p ps ih =>
    cases args with
    | nil => simp at hlen
    | cons v args =>
      by_cases hp : y = p
      · simp [hp, List.lookup_cons]
      · have := ih ((List.mem_cons.1 hy).resolve_left hp) (by simpa using hlen)
        simpa [List.lookup_cons, beq_false_of_ne hp] using this

/-- **A loop's run.**  If the body, run from a state that satisfies `R` with the loop variable
bound to `v`, ends normally in a state that satisfies `R`, and records states that satisfy `P`
whose projections are `out v`, then the loop over `vs` does so too, recording the projections of
each value in turn. -/
theorem loopOver_spec {α : Type} {body : PyEnv → Option Outcome} {x : String}
    (R P : PyEnv → Prop) (proj : PyEnv → α) (out : Int → List α)
    (hbody : ∀ v env, R env → ∃ t env', body (Function.update env x (some v)) = some (t, env', false) ∧
      R env' ∧ (∀ e ∈ t, P e) ∧ t.map proj = out v) (vs : List Int) :
    ∀ env, R env → ∃ t env', loopOver body x vs env = some (t, env', false) ∧ R env' ∧
      (∀ e ∈ t, P e) ∧ t.map proj = vs.flatMap out := by
  induction vs with
  | nil => exact fun env h => ⟨[], env, rfl, h, by simp, rfl⟩
  | cons v vs ih =>
    intro env h
    obtain ⟨t, env₁, hb, h₁, hP, ht⟩ := hbody v env h
    obtain ⟨t', env₂, hl, h₂, hP', ht'⟩ := ih env₁ h₁
    refine ⟨t ++ t', env₂, by simp [loopOver, hb, hl], h₂, ?_, by simp [ht, ht']⟩
    intro e he
    rcases List.mem_append.1 he with he | he
    exacts [hP e he, hP' e he]

end Run

end ParforOffload
