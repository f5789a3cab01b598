import Offside.Expr.Eval
import Offside.Proofs.Expr.Acceptance

/-!
# Columns

A tree keeps the columns of its tokens for messages. Here they are changed: a text
that is read at another column gives the same tree with other columns in it, and
they say nothing about the value of a tree.
-/

namespace Offside

/-- The token with its column changed. -/
def Token.recolumn (f : Nat → Nat) (t : Token) : Token :=
  { t with column := f t.column }

namespace Expr

mutual

/-- The tree with the columns in it changed. -/
def recolumn (f : Nat → Nat) : Expr → Expr
  | number x => number x
  | text content => text content
  | truth b => truth b
  | nothing => nothing
  | template raw => template raw
  | var name column => var name (f column)
  | list elements => list (recolumnAll f elements)
  | unary op column operand => unary op (f column) (recolumn f operand)
  | arith op column left right => arith op (f column) (recolumn f left) (recolumn f right)
  | comparison first links => comparison (recolumn f first) (recolumnLinks f links)
  | logical op left right => logical op (recolumn f left) (recolumn f right)
  | call name column arguments => call name (f column) (recolumnAll f arguments)
  | subscript column container index =>
    subscript (f column) (recolumn f container) (recolumn f index)

@[inherit_doc recolumn]
def recolumnAll (f : Nat → Nat) : List Expr → List Expr
  | [] => []
  | e :: es => recolumn f e :: recolumnAll f es

@[inherit_doc recolumn]
def recolumnLinks (f : Nat → Nat) :
    List (Relation × Nat × Expr) → List (Relation × Nat × Expr)
  | [] => []
  | (op, column, e) :: links => (op, f column, recolumn f e) :: recolumnLinks f links

end

/-- The tree with every column set to zero. Two trees that differ only in columns
have one bare tree. -/
def bare (e : Expr) : Expr :=
  e.recolumn fun _ => 0

variable {f g : Nat → Nat} {scope : Scope}

mutual

/-- Moving an expression twice is moving it once. -/
theorem recolumn_recolumn (e : Expr) : (e.recolumn f).recolumn g = e.recolumn (g ∘ f) := by
  cases e with
  | number | text | truth | nothing | template | var => simp only [recolumn, Function.comp]
  | list elements => simp only [recolumn, recolumnAll_recolumnAll elements]
  | unary op column operand =>
    simp only [recolumn, recolumn_recolumn operand, Function.comp]
  | arith op column left right =>
    simp only [recolumn, recolumn_recolumn left, recolumn_recolumn right, Function.comp]
  | comparison first links =>
    simp only [recolumn, recolumn_recolumn first, recolumnLinks_recolumnLinks links]
  | logical op left right =>
    simp only [recolumn, recolumn_recolumn left, recolumn_recolumn right]
  | call name column arguments =>
    simp only [recolumn, recolumnAll_recolumnAll arguments, Function.comp]
  | subscript column container index =>
    simp only [recolumn, recolumn_recolumn container, recolumn_recolumn index, Function.comp]

theorem recolumnAll_recolumnAll (es : List Expr) :
    recolumnAll g (recolumnAll f es) = recolumnAll (g ∘ f) es := by
  match es with
  | [] => rfl
  | e :: es => simp only [recolumnAll, recolumn_recolumn e, recolumnAll_recolumnAll es]

theorem recolumnLinks_recolumnLinks (links : List (Relation × Nat × Expr)) :
    recolumnLinks g (recolumnLinks f links) = recolumnLinks (g ∘ f) links := by
  match links with
  | [] => rfl
  | (op, column, e) :: links =>
    simp only [recolumnLinks, recolumn_recolumn e, recolumnLinks_recolumnLinks links,
      Function.comp]

end

/-- An expression is the same without columns wherever it stands. -/
@[simp] theorem bare_recolumn (e : Expr) : (e.recolumn f).bare = e.bare :=
  recolumn_recolumn e

/-! ## Values -/

mutual

/-- The value of an expression does not depend on where it stands. -/
theorem eval_recolumn (e : Expr) : (e.recolumn f).eval scope = e.eval scope := by
  cases e with
  | number | text | truth | nothing | template | var => simp only [recolumn, eval]
  | list elements => simp only [recolumn, eval, evalAll_recolumnAll elements]
  | unary op column operand => simp only [recolumn, eval, eval_recolumn operand]
  | arith op column left right =>
    simp only [recolumn, eval, eval_recolumn left, eval_recolumn right]
  | comparison first links =>
    simp only [recolumn, eval, eval_recolumn first, evalLinks_recolumnLinks links]
  | logical op left right =>
    simp only [recolumn, eval, eval_recolumn left, eval_recolumn right]
  | call name column arguments => simp only [recolumn, eval, evalAll_recolumnAll arguments]
  | subscript column container index =>
    simp only [recolumn, eval, eval_recolumn container, eval_recolumn index]

/-- The values of expressions do not depend on where they stand. -/
theorem evalAll_recolumnAll (es : List Expr) :
    evalAll scope (recolumnAll f es) = evalAll scope es := by
  match es with
  | [] => rfl
  | e :: es => simp only [recolumnAll, evalAll, eval_recolumn e, evalAll_recolumnAll es]

/-- The truth of a comparison does not depend on where it stands. -/
theorem evalLinks_recolumnLinks (links : List (Relation × Nat × Expr)) (v : Value) :
    evalLinks scope v (recolumnLinks f links) = evalLinks scope v links := by
  match links with
  | [] => rfl
  | (op, column, e) :: links =>
    simp only [recolumnLinks, evalLinks, eval_recolumn e, evalLinks_recolumnLinks links]

end

/-- Trees that differ only in columns have the same value. -/
theorem eval_eq_of_bare_eq {e e' : Expr} (h : e.bare = e'.bare) :
    e.eval scope = e'.eval scope := by
  rw [← eval_recolumn e, ← eval_recolumn e']
  exact congrArg (eval scope) h

end Expr

/-! ## Derivations -/

section

variable {f : Nat → Nat} {join : Join} {t : Token}

/-- An operator joins operands wherever they stand. -/
theorem Joins.recolumn {left right e : Expr} (h : Joins join t left right e) :
    Joins join (t.recolumn f) (left.recolumn f) (right.recolumn f) (e.recolumn f) := by
  cases h <;> constructor <;> assumption

/-- A token stands for the same at every column. -/
theorem Stands.recolumn {e : Expr} (h : Stands t e) : Stands (t.recolumn f) (e.recolumn f) := by
  cases h <;> constructor <;> assumption

end

mutual

/-- What is derived does not depend on columns. -/
theorem Derives.recolumn (f : Nat → Nat) {level : Level} {ts : List Token} {e : Expr} :
    Derives level ts e → Derives level (ts.map (Token.recolumn f)) (e.recolumn f)
  | .operand he => .operand (he.recolumn f)
  | .join hleft ht hright => by
    rw [List.map_append, List.map_cons]
    exact .join (hleft.recolumn f) ht.recolumn (hright.recolumn f)
  | .not ht he => .not ht (he.recolumn f)
  | .compared he => .compared (he.recolumn f)
  | .single he => .single (he.recolumn f)
  | .chain hfirst hlinks => by
    rw [List.map_append]
    exact .chain (hfirst.recolumn f) (hlinks.recolumn f)
  | .sign ht he => .sign ht (he.recolumn f)
  | .unsigned he => .unsigned (he.recolumn f)
  | .base he => .base (he.recolumn f)
  | .power hbase ht hexponent => by
    rw [List.map_append, List.map_cons]
    exact .power (hbase.recolumn f) ht (hexponent.recolumn f)
  | .bare he => .bare (he.recolumn f)
  | .call hcallee ht harguments hu => by
    rw [List.map_append, List.map_cons, List.map_append]
    exact .call (hcallee.recolumn f) ht (harguments.recolumn f) hu
  | .subscript hcontainer ht hindex hu => by
    rw [List.map_append, List.map_cons, List.map_append]
    exact .subscript (hcontainer.recolumn f) ht (hindex.recolumn f) hu
  | .stands ht => .stands ht.recolumn
  | .group ht he hu => by
    rw [List.map_cons, List.map_append]
    exact .group ht (he.recolumn f) hu
  | .list ht helements hu => by
    rw [List.map_cons, List.map_append]
    exact .list ht (helements.recolumn f) hu

/-- Links of a comparison are derived at every column. -/
theorem Links.recolumn (f : Nat → Nat) {ts : List Token}
    {links : List (Relation × Nat × Expr)} :
    Links ts links → Links (ts.map (Token.recolumn f)) (Expr.recolumnLinks f links)
  | .nil => .nil
  | .cons ht he hlinks => by
    rw [List.map_cons, List.map_append]
    exact .cons ht (he.recolumn f) (hlinks.recolumn f)
  | .notIn ht hu he hlinks => by
    rw [List.map_cons, List.map_cons, List.map_append]
    exact .notIn ht hu (he.recolumn f) (hlinks.recolumn f)

/-- Elements are derived at every column. -/
theorem Elements.recolumn (f : Nat → Nat) {ts : List Token} {es : List Expr} :
    Elements ts es → Elements (ts.map (Token.recolumn f)) (Expr.recolumnAll f es)
  | .nil => .nil
  | .last he => .last (he.recolumn f)
  | .cons he ht hes => by
    rw [List.map_append, List.map_cons]
    exact .cons (he.recolumn f) ht (hes.recolumn f)

end

end Offside
