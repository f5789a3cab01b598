import Offside.Expr.Eval
import Offside.Proofs.Text.Names
import Offside.Proofs.Token.Scanning

/-!
# The names that an expression reads

An expression looks names up in three places: where it is a variable, where it calls a name,
and in the placeholders of a template. Each of them was one token, and a token was cut out of
the text. So the expression reads, from left to right, what its tokens carry:

> `Derives.read_eq`: nothing is looked up that no token carries.

And where two scopes agree on what an expression reads, it has the same value in both, or the
same fault:

> `Expr.eval_congr`
-/

namespace Offside

open Text

variable {a b : Scope} {column more : Nat} {c : Char} {t u cs : Text} {token : Token}
  {ts : List Token} {kind : TokenKind} {literal : Option Literal} {e : Expr}

/-- What a token carries that is looked up later: a name, or a template with names in it. -/
def Token.read (t : Token) : List Text :=
  match t.kind, t.literal with
  | .identifier, some (.name s) => [s.toList]
  | .template, some (.text s) => [s.toList]
  | _, _ => []

/-- The kinds of tokens that are looked up. -/
def TokenKind.carriesNames : TokenKind → Bool
  | .identifier | .template => true
  | _ => false

mutual

/-- What an expression looks up, from left to right: the names of its variables and calls, and
its templates. -/
def Expr.read : Expr → List Text
  | number _ | text _ | truth _ | nothing => []
  | template raw => [raw.toList]
  | var name _ => [name.toList]
  | list elements => Expr.readAll elements
  | unary _ _ operand => operand.read
  | arith _ _ left right => left.read ++ right.read
  | comparison first links => first.read ++ Expr.readLinks links
  | logical _ left right => left.read ++ right.read
  | call name _ arguments => name.toList :: Expr.readAll arguments
  | subscript _ container index => container.read ++ index.read

/-- What some expressions look up. -/
def Expr.readAll : List Expr → List Text
  | [] => []
  | e :: es => e.read ++ Expr.readAll es

/-- What the operands of a chain of comparisons look up. -/
def Expr.readLinks : List (Relation × Nat × Expr) → List Text
  | [] => []
  | (_, _, operand) :: links => operand.read ++ Expr.readLinks links

end

/-! ## From tokens to expressions -/

/-- Only identifiers and templates are looked up. -/
theorem Token.read_of_kind {t : Token} (h : t.kind.carriesNames = false) : t.read = [] := by
  unfold Token.read
  split
  next hkind _ =>
    rw [hkind] at h
    contradiction
  next hkind _ =>
    rw [hkind] at h
    contradiction
  next => rfl

/-- A token and what it stands for name the same. -/
theorem Stands.read_eq {t : Token} (h : Stands t e) : e.read = t.read := by
  cases h with
  | template hkind hliteral | var hkind hliteral =>
    rw [Expr.read, Token.read, hkind, hliteral]
  | truth hkind | untruth hkind | nothing hkind | number hkind | text hkind =>
    rw [Expr.read, Token.read_of_kind (by rw [hkind]; rfl)]

/-- Joined operands name what the operands and their operator do. -/
theorem Joins.read_eq {join : Join} {t : Token} {left right : Expr}
    (h : Joins join t left right e) :
    e.read = left.read ++ (t.read ++ right.read) := by
  have hread (hkind : t.kind.carriesNames = false) :
      left.read ++ (t.read ++ right.read) = left.read ++ right.read := by
    rw [Token.read_of_kind hkind, List.nil_append]
  cases h with
  | or hkind | and hkind | add hkind | sub hkind | mul hkind | div hkind | floorDiv hkind
  | mod hkind => rw [hread (by rw [hkind]; rfl), Expr.read]

theorem Compares.read_eq {t : Token} {op : Relation} (h : Compares t.kind op) : t.read = [] := by
  refine Token.read_of_kind ?_
  generalize t.kind = kind at h
  cases h <;> rfl

theorem Signs.read_eq {t : Token} {op : UnaryOp} (h : Signs t.kind op) : t.read = [] := by
  refine Token.read_of_kind ?_
  generalize t.kind = kind at h
  cases h <;> rfl

/-- Brackets around some tokens are not looked up. -/
theorem read_bracketed {t u : Token} (ht : t.kind.carriesNames = false)
    (hu : u.kind.carriesNames = false) (ts : List Token) :
    (t :: (ts ++ [u])).flatMap Token.read = ts.flatMap Token.read := by
  rw [List.flatMap_cons, List.flatMap_append, List.flatMap_singleton, Token.read_of_kind ht,
    Token.read_of_kind hu, List.nil_append, List.append_nil]

mutual

/-- **An expression reads what its tokens carry**, in their order, and nothing else. -/
theorem Derives.read_eq {level : Level} {ts : List Token} {e : Expr} :
    Derives level ts e → e.read = ts.flatMap Token.read
  | .operand he | .compared he | .single he | .unsigned he | .base he | .bare he => he.read_eq
  | .join hleft ht hright => by
    rw [ht.read_eq, hleft.read_eq, hright.read_eq, List.flatMap_append, List.flatMap_cons]
  | .not ht he => by
    rw [Expr.read, he.read_eq, List.flatMap_cons, Token.read_of_kind (by rw [ht]; rfl),
      List.nil_append]
  | .chain hfirst hlinks => by
    rw [Expr.read, hfirst.read_eq, hlinks.read_eq, List.flatMap_append]
  | .sign ht he => by
    rw [Expr.read, he.read_eq, List.flatMap_cons, ht.read_eq, List.nil_append]
  | .power hbase ht hexponent => by
    rw [Expr.read, hbase.read_eq, hexponent.read_eq, List.flatMap_append, List.flatMap_cons,
      Token.read_of_kind (by rw [ht]; rfl), List.nil_append]
  | .call hcallee ht harguments hu => by
    have hname := hcallee.read_eq
    rw [Expr.read] at hname
    rw [Expr.read, harguments.read_eq, List.flatMap_append,
      read_bracketed (by rw [ht]; rfl) (by rw [hu]; rfl), ← hname, List.singleton_append]
  | .subscript hcontainer ht hindex hu => by
    rw [Expr.read, hcontainer.read_eq, hindex.read_eq, List.flatMap_append,
      read_bracketed (by rw [ht]; rfl) (by rw [hu]; rfl)]
  | .stands ht => by rw [ht.read_eq, List.flatMap_singleton]
  | .group ht he hu => by rw [he.read_eq, read_bracketed (by rw [ht]; rfl) (by rw [hu]; rfl)]
  | .list ht helements hu => by
    rw [Expr.read, helements.read_eq, read_bracketed (by rw [ht]; rfl) (by rw [hu]; rfl)]

/-- Links of a comparison name what their tokens do. -/
theorem Links.read_eq {ts : List Token} {links : List (Relation × Nat × Expr)} :
    Links ts links → Expr.readLinks links = ts.flatMap Token.read
  | .nil => rfl
  | .cons ht he hlinks => by
    rw [Expr.readLinks, he.read_eq, hlinks.read_eq, List.flatMap_cons, List.flatMap_append,
      ht.read_eq, List.nil_append]
  | .notIn ht hu he hlinks => by
    rw [Expr.readLinks, he.read_eq, hlinks.read_eq, List.flatMap_cons, List.flatMap_cons,
      List.flatMap_append, Token.read_of_kind (by rw [ht]; rfl),
      Token.read_of_kind (by rw [hu]; rfl), List.nil_append, List.nil_append]

/-- Elements name what their tokens do. -/
theorem Elements.read_eq {ts : List Token} {es : List Expr} :
    Elements ts es → Expr.readAll es = ts.flatMap Token.read
  | .nil => rfl
  | .last he => by rw [Expr.readAll, Expr.readAll, he.read_eq, List.append_nil]
  | .cons he ht hes => by
    rw [Expr.readAll, he.read_eq, hes.read_eq, List.flatMap_append, List.flatMap_cons,
      Token.read_of_kind (by rw [ht]; rfl), List.nil_append]

end

/-! ## From the text to tokens -/

/-- What a token carries stands in what the token was cut out of. -/
theorem TokenAt.isInfix_of_mem_read {column : Nat} {lexeme : String}
    (h : TokenAt c cs kind literal more) (hu : u ∈ Token.read ⟨kind, lexeme, literal, column⟩) :
    u <:+: c :: cs := by
  unfold Token.read at hu
  split at hu
  next s hkind hliteral =>
    obtain rfl := List.mem_singleton.mp hu
    cases hkind
    cases hliteral
    cases h with
    | name hc hword =>
      rw [String.toList_ofList]
      exact (List.cons_prefix_cons.mpr ⟨rfl, List.takeWhile_prefix continuesWord⟩).isInfix
  next s hkind hliteral =>
    obtain rfl := List.mem_singleton.mp hu
    cases hkind
    cases hliteral
    cases h with
    | @template q ds body hc hcs hq hbody =>
      obtain ⟨-, rest, rfl⟩ := quoted_of_untilQuote hbody
      rw [String.toList_ofList, hcs]
      exact ⟨[c, q], q :: rest, by simp⟩
  next => contradiction

/-- Whatever a token names is written in the text. -/
theorem Scans.isInfix_of_mem_read (h : Scans column t ts) (htoken : token ∈ ts)
    (hu : u ∈ token.read) : u <:+: t := by
  induction h with
  | done => contradiction
  | space hc h ih => exact List.infix_cons (ih htoken)
  | @token column c cs rest kind literal ts hc h ih =>
    rcases List.mem_cons.mp htoken with rfl | htoken
    · exact (tokenAt_of_lexeme hc).isInfix_of_mem_read hu
    · have hrest : rest <:+: c :: (cs ++ rest) := (List.suffix_append (c :: cs) rest).isInfix
      exact (ih htoken).trans hrest

/-- What an expression looks up stands in its text. -/
theorem isInfix_of_mem_read (h : parseText t = .ok e) (hu : u ∈ e.read) : u <:+: t := by
  obtain ⟨ts, hts, he⟩ := parseText_eq_ok_iff.mp h
  rw [he.read_eq] at hu
  obtain ⟨token, htoken, hu⟩ := List.mem_flatMap.mp hu
  exact hts.isInfix_of_mem_read htoken hu

/-! ## Evaluation -/

namespace Expr

mutual

/-- **What is not read does not matter.** In scopes that agree on what an expression looks up
it has the same value, or the same fault. -/
theorem eval_congr (e : Expr) (h : ∀ u ∈ e.read, a.AgreeOn b u) : e.eval a = e.eval b := by
  cases e with
  | number | text | truth | nothing => rfl
  | template raw =>
    rw [eval, eval, (h raw.toList List.mem_cons_self).interpolate_unescape]
  | var name column =>
    rw [eval, eval, h name.toList List.mem_cons_self name List.infix_rfl]
  | list elements => rw [eval, eval, evalAll_congr elements h]
  | unary op column operand => rw [eval, eval, eval_congr operand h]
  | arith op column left right =>
    obtain ⟨hleft, hright⟩ := List.forall_mem_append.mp h
    rw [eval, eval, eval_congr left hleft, eval_congr right hright]
  | comparison first links =>
    obtain ⟨hfirst, hlinks⟩ := List.forall_mem_append.mp h
    rw [eval, eval, eval_congr first hfirst]
    cases first.eval b with
    | error fault => rfl
    | ok v => exact evalLinks_congr links hlinks v
  | logical op left right =>
    obtain ⟨hleft, hright⟩ := List.forall_mem_append.mp h
    rw [eval, eval, eval_congr left hleft, eval_congr right hright]
  | call name column arguments =>
    obtain ⟨hname, harguments⟩ := List.forall_mem_cons.mp h
    rw [eval, eval, callee, callee, hname name List.infix_rfl, evalAll_congr arguments harguments]
  | subscript column container index =>
    obtain ⟨hcontainer, hindex⟩ := List.forall_mem_append.mp h
    rw [eval, eval, eval_congr container hcontainer, eval_congr index hindex]

/-- The values of expressions depend only on the names in them. -/
theorem evalAll_congr (es : List Expr) (h : ∀ u ∈ readAll es, a.AgreeOn b u) :
    evalAll a es = evalAll b es := by
  cases es with
  | nil => rfl
  | cons e es =>
    obtain ⟨he, hes⟩ := List.forall_mem_append.mp h
    rw [evalAll, evalAll, eval_congr e he, evalAll_congr es hes]

/-- The truth of a comparison depends only on the names in it. -/
theorem evalLinks_congr (links : List (Relation × Nat × Expr))
    (h : ∀ u ∈ readLinks links, a.AgreeOn b u) (v : Value) :
    evalLinks a v links = evalLinks b v links := by
  cases links with
  | nil => rfl
  | cons link links =>
    obtain ⟨op, column, operand⟩ := link
    obtain ⟨hoperand, hlinks⟩ := List.forall_mem_append.mp h
    rw [evalLinks, evalLinks, eval_congr operand hoperand]
    -- the chain goes on from the operand that was compared last
    cases operand.eval b with
    | error fault => rfl
    | ok w =>
      dsimp only
      rw [evalLinks_congr links hlinks w]

end

end Expr

end Offside
