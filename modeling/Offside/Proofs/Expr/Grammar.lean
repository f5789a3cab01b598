import Offside.Expr.Parser

/-!
# The grammar of expressions

Which tokens form which expression, said without a parser. From the loosest level
to the tightest:

    or         → and ("or" and)*
    and        → not ("and" not)*
    not        → "not" not | comparison
    comparison → sum (("==" | "!=" | "<" | "<=" | ">" | ">=" | "in" | "not" "in") sum)*
    sum        → product (("+" | "-") product)*
    product    → signed (("*" | "/" | "//" | "%") signed)*
    signed     → ("-" | "+") signed | power
    power      → trailed ("**" signed)?
    trailed    → primary ("(" elements ")" | "[" or "]")*
    elements   → (or ("," or)* ","?)?
    primary    → number | string | template | "True" | "False" | "None"
               | identifier | "(" or ")" | "[" elements "]"

The tree of what a level joins grows to the left; a chain of comparisons is one
node; and only an operand whose tree is a name may be called.
-/

namespace Offside

/-- The tree that a token joins two operands to, at a level. -/
inductive Joins : Join → Token → Expr → Expr → Expr → Prop
  | or {t : Token} {left right : Expr} (hkind : t.kind = .orWord) :
    Joins .or t left right (.logical .or left right)
  | and {t : Token} {left right : Expr} (hkind : t.kind = .andWord) :
    Joins .and t left right (.logical .and left right)
  | add {t : Token} {left right : Expr} (hkind : t.kind = .plus) :
    Joins .sum t left right (.arith .add t.column left right)
  | sub {t : Token} {left right : Expr} (hkind : t.kind = .minus) :
    Joins .sum t left right (.arith .sub t.column left right)
  | mul {t : Token} {left right : Expr} (hkind : t.kind = .star) :
    Joins .product t left right (.arith .mul t.column left right)
  | div {t : Token} {left right : Expr} (hkind : t.kind = .slash) :
    Joins .product t left right (.arith .div t.column left right)
  | floorDiv {t : Token} {left right : Expr} (hkind : t.kind = .slashSlash) :
    Joins .product t left right (.arith .floorDiv t.column left right)
  | mod {t : Token} {left right : Expr} (hkind : t.kind = .percent) :
    Joins .product t left right (.arith .mod t.column left right)

/-- The tokens that compare two operands. -/
inductive Compares : TokenKind → Relation → Prop
  | eq : Compares .equalEqual .eq
  | ne : Compares .bangEqual .ne
  | lt : Compares .less .lt
  | le : Compares .lessEqual .le
  | gt : Compares .greater .gt
  | ge : Compares .greaterEqual .ge
  | isIn : Compares .inWord .isIn

/-- The tokens in front of one operand of arithmetic. -/
inductive Signs : TokenKind → UnaryOp → Prop
  | plus : Signs .plus .plus
  | minus : Signs .minus .minus

/-- The tokens that are an expression by themselves, with what they carry. -/
inductive Stands : Token → Expr → Prop
  | truth {t : Token} (hkind : t.kind = .trueWord) : Stands t (.truth true)
  | untruth {t : Token} (hkind : t.kind = .falseWord) : Stands t (.truth false)
  | nothing {t : Token} (hkind : t.kind = .noneWord) : Stands t .nothing
  | number {t : Token} {x : Float} (hkind : t.kind = .number)
    (hliteral : t.literal = some (.number x)) : Stands t (.number x)
  | text {t : Token} {s : String} (hkind : t.kind = .string)
    (hliteral : t.literal = some (.text s)) : Stands t (.text s)
  | template {t : Token} {s : String} (hkind : t.kind = .template)
    (hliteral : t.literal = some (.text s)) : Stands t (.template s)
  | var {t : Token} {s : String} (hkind : t.kind = .identifier)
    (hliteral : t.literal = some (.name s)) : Stands t (.var s t.column)

mutual

/-- The tokens `ts` form the expression `e` at a level. -/
inductive Derives : Level → List Token → Expr → Prop
  | operand {join : Join} {ts : List Token} {e : Expr} (he : Derives join.operand ts e) :
    Derives (.joined join) ts e
  | join {join : Join} {ts us : List Token} {t : Token} {left right e : Expr}
    (hleft : Derives (.joined join) ts left) (ht : Joins join t left right e)
    (hright : Derives join.operand us right) : Derives (.joined join) (ts ++ t :: us) e
  | not {ts : List Token} {t : Token} {e : Expr} (ht : t.kind = .notWord)
    (he : Derives .not ts e) : Derives .not (t :: ts) (.unary .not t.column e)
  | compared {ts : List Token} {e : Expr} (he : Derives .comparison ts e) : Derives .not ts e
  | single {ts : List Token} {e : Expr} (he : Derives (.joined .sum) ts e) :
    Derives .comparison ts e
  | chain {ts us : List Token} {first : Expr} {link : Relation × Nat × Expr}
    {links : List (Relation × Nat × Expr)} (hfirst : Derives (.joined .sum) ts first)
    (hlinks : Links us (link :: links)) :
    Derives .comparison (ts ++ us) (.comparison first (link :: links))
  | sign {ts : List Token} {t : Token} {op : UnaryOp} {e : Expr} (ht : Signs t.kind op)
    (he : Derives .signed ts e) : Derives .signed (t :: ts) (.unary op t.column e)
  | unsigned {ts : List Token} {e : Expr} (he : Derives .power ts e) : Derives .signed ts e
  | base {ts : List Token} {e : Expr} (he : Derives .trailed ts e) : Derives .power ts e
  | power {ts us : List Token} {t : Token} {base exponent : Expr}
    (hbase : Derives .trailed ts base) (ht : t.kind = .starStar)
    (hexponent : Derives .signed us exponent) :
    Derives .power (ts ++ t :: us) (.arith .pow t.column base exponent)
  | bare {ts : List Token} {e : Expr} (he : Derives .primary ts e) : Derives .trailed ts e
  | call {ts us : List Token} {t u : Token} {name : String} {column : Nat}
    {arguments : List Expr} (hcallee : Derives .trailed ts (.var name column))
    (ht : t.kind = .leftParen) (harguments : Elements us arguments) (hu : u.kind = .rightParen) :
    Derives .trailed (ts ++ t :: (us ++ [u])) (.call name column arguments)
  | subscript {ts us : List Token} {t u : Token} {container index : Expr}
    (hcontainer : Derives .trailed ts container) (ht : t.kind = .leftBracket)
    (hindex : Derives (.joined .or) us index) (hu : u.kind = .rightBracket) :
    Derives .trailed (ts ++ t :: (us ++ [u])) (.subscript t.column container index)
  | stands {t : Token} {e : Expr} (ht : Stands t e) : Derives .primary [t] e
  | group {ts : List Token} {t u : Token} {e : Expr} (ht : t.kind = .leftParen)
    (he : Derives (.joined .or) ts e) (hu : u.kind = .rightParen) :
    Derives .primary (t :: (ts ++ [u])) e
  | list {ts : List Token} {t u : Token} {elements : List Expr} (ht : t.kind = .leftBracket)
    (helements : Elements ts elements) (hu : u.kind = .rightBracket) :
    Derives .primary (t :: (ts ++ [u])) (.list elements)

/-- The tokens form the comparisons that go on a chain. -/
inductive Links : List Token → List (Relation × Nat × Expr) → Prop
  | nil : Links [] []
  | cons {ts us : List Token} {t : Token} {op : Relation} {e : Expr}
    {links : List (Relation × Nat × Expr)} (ht : Compares t.kind op)
    (he : Derives (.joined .sum) ts e) (hlinks : Links us links) :
    Links (t :: (ts ++ us)) ((op, t.column, e) :: links)
  | notIn {ts us : List Token} {t u : Token} {e : Expr} {links : List (Relation × Nat × Expr)}
    (ht : t.kind = .notWord) (hu : u.kind = .inWord) (he : Derives (.joined .sum) ts e)
    (hlinks : Links us links) :
    Links (t :: u :: (ts ++ us)) ((.notIn, t.column, e) :: links)

/-- The tokens form expressions between commas; a comma may stand at the end. -/
inductive Elements : List Token → List Expr → Prop
  | nil : Elements [] []
  | last {ts : List Token} {e : Expr} (he : Derives (.joined .or) ts e) : Elements ts [e]
  | cons {ts us : List Token} {t : Token} {e : Expr} {es : List Expr}
    (he : Derives (.joined .or) ts e) (ht : t.kind = .comma) (hes : Elements us es) :
    Elements (ts ++ t :: us) (e :: es)

end

/-! ## The first token of an expression -/

/-- The tightest level at which an expression begins with a token of a kind. -/
def TokenKind.begins? : TokenKind → Option Level
  | .number | .string | .template | .trueWord | .falseWord | .noneWord | .identifier
  | .leftParen | .leftBracket => some .primary
  | .plus | .minus => some .signed
  | .notWord => some .not
  | _ => none

/-- The tokens begin with one that may begin an expression of a level. -/
def Begins (level : Level) (ts : List Token) : Prop :=
  ∃ t us tightest, ts = t :: us ∧ t.kind.begins? = some tightest ∧ tightest.rank ≤ level.rank

/-- What may begin a level may begin every looser one. -/
theorem Begins.looser {level level' : Level} {ts : List Token} (h : Begins level ts)
    (hrank : level.rank ≤ level'.rank) : Begins level' ts := by
  obtain ⟨t, us, tightest, hts, hbegins, hle⟩ := h
  exact ⟨t, us, tightest, hts, hbegins, Nat.le_trans hle hrank⟩

/-- Tokens begin a level whatever follows them. -/
theorem Begins.append {level : Level} {ts : List Token} (h : Begins level ts)
    (us : List Token) : Begins level (ts ++ us) := by
  obtain ⟨t, rest, tightest, rfl, hbegins, hle⟩ := h
  exact ⟨t, rest ++ us, tightest, rfl, hbegins, hle⟩

theorem begins_cons {level tightest : Level} {t : Token} {ts : List Token}
    (h : t.kind.begins? = some tightest) (hrank : tightest.rank ≤ level.rank) :
    Begins level (t :: ts) :=
  ⟨t, ts, tightest, rfl, h, hrank⟩

/-- What a token stands for alone is a primary. -/
theorem Stands.begins? {t : Token} {e : Expr} (h : Stands t e) :
    t.kind.begins? = some .primary := by
  cases h <;> simp_all [TokenKind.begins?]

/-- A sign begins a signed operand. -/
theorem Signs.begins? {kind : TokenKind} {op : UnaryOp} (h : Signs kind op) :
    kind.begins? = some .signed := by
  cases h <;> rfl

/-- Whatever a level derives begins with a token that may begin the level. -/
theorem Derives.begins {level : Level} {ts : List Token} {e : Expr} :
    Derives level ts e → Begins level ts
  | .operand he => he.begins.looser (Nat.le_of_lt (Join.rank_operand_lt _))
  | .join hleft _ _ => hleft.begins.append _
  | .not ht _ => begins_cons (by rw [ht]; rfl) (Nat.le_refl _)
  | .compared he => he.begins.looser (by decide)
  | .single he => he.begins.looser (by decide)
  | .chain hfirst _ => (hfirst.begins.append _).looser (by decide)
  | .sign ht _ => begins_cons ht.begins? (by decide)
  | .unsigned he => he.begins.looser (by decide)
  | .base he => he.begins.looser (by decide)
  | .power hbase _ _ => (hbase.begins.append _).looser (by decide)
  | .bare he => he.begins.looser (by decide)
  | .call hcallee _ _ _ => hcallee.begins.append _
  | .subscript hcontainer _ _ _ => hcontainer.begins.append _
  | .stands ht => begins_cons ht.begins? (Nat.le_refl _)
  | .group ht _ _ => begins_cons (by rw [ht]; rfl) (Nat.le_refl _)
  | .list ht _ _ => begins_cons (by rw [ht]; rfl) (Nat.le_refl _)

/-- No level derives nothing at all. -/
theorem Derives.ne_nil {level : Level} {ts : List Token} {e : Expr} (h : Derives level ts e) :
    ts ≠ [] := by
  obtain ⟨t, us, -, rfl, -⟩ := h.begins
  exact List.cons_ne_nil t us

end Offside
