import Offside.Expr.Parser

/-!
# Parsing by position

The parser again, as a reading of the tokens by their position. It looks at the token it
stands before, passes a token unless that is the end mark, and then looks back at the token
it has passed: each of these accesses is checked. The descent through the levels of
precedence is the same.
-/

namespace Offside.Access

variable {tokens : List Token} {current next : Nat}

/-! ## Accesses -/

/-- The token at a position. -/
def look? (tokens : List Token) (current : Nat) : Option Token :=
  tokens[current]?

/-- Whether the end mark stands at a position. -/
def atEnd? (tokens : List Token) (current : Nat) : Option Bool :=
  (look? tokens current).map (·.kind == .eof)

/-- Whether a token of a kind stands at a position. The end mark is of no kind. -/
def check? (tokens : List Token) (kind : TokenKind) (current : Nat) : Option Bool := do
  if ← atEnd? tokens current then return false
  let t ← look? tokens current
  return t.kind == kind

/-- The token before a position. -/
def previous? (tokens : List Token) (current : Nat) : Option Token :=
  if current = 0 then none else tokens[current - 1]?

/-- Passes the token at a position, unless it is the end mark, and looks back at it. -/
def pass? (tokens : List Token) (current : Nat) : Option (Token × Nat) := do
  let next := if ← atEnd? tokens current then current else current + 1
  let t ← previous? tokens next
  return (t, next)

/-- Passes the token at a position if it is of one of some kinds. -/
def passIf? (tokens : List Token) (current : Nat) :
    List TokenKind → Option (Option (Token × Nat))
  | [] => some none
  | kind :: kinds => do
    if ← check? tokens kind current then
      let passed ← pass? tokens current
      return some passed
    else passIf? tokens current kinds

/-- Looking at a token in front of the end never leaves the tokens. -/
theorem check?_eq {t : Token} (h : tokens[current]? = some t) (ht : t.kind ≠ .eof)
    (kind : TokenKind) : check? tokens kind current = some (t.kind == kind) := by
  rw [check?, atEnd?, look?, h]
  show (if (t.kind == .eof) = true then some false else some (t.kind == kind)) = _
  rw [if_neg (by simpa using ht)]

theorem check?_of_eof {t : Token} (h : tokens[current]? = some t) (ht : t.kind = .eof)
    (kind : TokenKind) : check? tokens kind current = some false := by
  rw [check?, atEnd?, look?, h]
  show (if (t.kind == .eof) = true then some false else some (t.kind == kind)) = _
  rw [if_pos (by simpa using ht)]

/-- Passing a token in front of the end moves on by one. -/
theorem pass?_eq {t : Token} (h : tokens[current]? = some t) (ht : t.kind ≠ .eof) :
    pass? tokens current = some (t, current + 1) := by
  rw [pass?, atEnd?, look?, h]
  show (previous? tokens (if (t.kind == .eof) = true then current else current + 1)).bind
    (fun u => some (u, if (t.kind == .eof) = true then current else current + 1)) = _
  rw [if_neg (by simpa using ht), previous?, if_neg (Nat.succ_ne_zero _), Nat.add_sub_cancel, h]
  rfl

/-- A token in front of the end is passed if it is of one of the kinds. -/
theorem passIf?_eq {t : Token} (h : tokens[current]? = some t) (ht : t.kind ≠ .eof)
    (kinds : List TokenKind) :
    passIf? tokens current kinds =
      some (if t.kind ∈ kinds then some (t, current + 1) else none) := by
  induction kinds with
  | nil => rfl
  | cons kind kinds ih =>
    rw [passIf?, check?_eq h ht, pass?_eq h ht, ih]
    by_cases hkind : t.kind = kind
    · rw [hkind, beq_self_eq_true, if_pos List.mem_cons_self]
      rfl
    · rw [beq_eq_false_iff_ne.mpr hkind]
      simp [hkind]

/-- The end is never passed. -/
theorem passIf?_of_eof {t : Token} (h : tokens[current]? = some t) (ht : t.kind = .eof)
    (kinds : List TokenKind) : passIf? tokens current kinds = some none := by
  induction kinds with
  | nil => rfl
  | cons kind kinds ih =>
    rw [passIf?, check?_of_eof h ht, ih]
    rfl

/-- What is passed stands at the position, and the position after it is the next. -/
theorem getElem?_of_passIf? {t : Token} {kinds : List TokenKind}
    (h : passIf? tokens current kinds = some (some (t, next))) :
    tokens[current]? = some t ∧ next = current + 1 := by
  cases htoken : tokens[current]? with
  | none =>
    cases kinds with
    | nil => cases h
    | cons kind kinds =>
      rw [passIf?, check?, atEnd?, look?, htoken] at h
      cases h
  | some u =>
    by_cases hu : u.kind = .eof
    · rw [passIf?_of_eof htoken hu] at h
      cases h
    · rw [passIf?_eq htoken hu] at h
      split at h
      next => cases h; exact ⟨rfl, rfl⟩
      next => cases h

theorem length_sub_lt_of_passIf? {t : Token} {kinds : List TokenKind}
    (h : passIf? tokens current kinds = some (some (t, next))) :
    tokens.length - next < tokens.length - current := by
  obtain ⟨htoken, rfl⟩ := getElem?_of_passIf? h
  obtain ⟨hlt, -⟩ := List.getElem?_eq_some_iff.mp htoken
  omega

/-! ## The levels of precedence -/

/-- What a parser gives that reads tokens by their position: nothing where an access is
out of range. -/
abbrev Parsed (α : Type) := ExceptT ParseFault Option α

/-- Something read from a position on: what was read, and the position behind it, with
fewer than `bound` tokens from there on. -/
structure Moved (tokens : List Token) (α : Type) (bound : Nat) where
  value : α
  current : Nat
  short : tokens.length - current < bound

/-- A token that is passed. -/
abbrev Passed (tokens : List Token) (current : Nat) :=
  Moved tokens Token (tokens.length - current)

/-- Passes the token at a position if it is of one of some kinds. -/
def match? (tokens : List Token) (current : Nat) (kinds : List TokenKind) :
    Parsed (Option (Passed tokens current)) :=
  match h : passIf? tokens current kinds with
  | none => none
  | some none => some (.ok none)
  | some (some (t, next)) => some (.ok (some ⟨t, next, length_sub_lt_of_passIf? h⟩))

/-- Passes the closing token, which has to stand at a position. -/
def consume? (tokens : List Token) (closing : Closing) (current : Nat) :
    Parsed (Passed tokens current) := do
  match ← match? tokens current [closing.kind] with
  | some passed => return passed
  | none =>
    let found ← look? tokens current
    throw (.unclosed closing found.kind found.column)

/-- The tokens that join operands at a level. -/
def joinKinds : Join → List TokenKind
  | .or => [.orWord]
  | .and => [.andWord]
  | .sum => [.minus, .plus]
  | .product => [.star, .slash, .slashSlash, .percent]

/-- The tokens that are a comparison by themselves. -/
def relationKinds : List TokenKind :=
  [.equalEqual, .bangEqual, .less, .lessEqual, .greater, .greaterEqual, .inWord]

/-- The tokens that are an operand by themselves. -/
def atomKinds : List TokenKind :=
  [.falseWord, .trueWord, .noneWord, .number, .string, .template, .identifier]

/-- The name that an operand is, and where it stands; nothing else is called. -/
def callee? : Expr → Option (String × Nat)
  | .var name column => some (name, column)
  | _ => none

/-- Passes the tokens of a comparison, if it stands at a position: one token, or `not` with
`in` behind it. -/
def relationAt? (tokens : List Token) (current : Nat) :
    Parsed (Option (Moved tokens (Relation × Nat) (tokens.length - current))) := do
  let negated := (tokens[current + 1]?).any (·.kind == .inWord)
  if (← check? tokens .notWord current) && negated then
    match ← match? tokens current [.notWord] with
    | none => return none
    | some ⟨t, next, _⟩ =>
      match ← match? tokens next [.inWord] with
      | none => return none
      | some ⟨_, last, _⟩ => return some ⟨(.notIn, t.column), last, by omega⟩
  else
    match ← match? tokens current relationKinds with
    | none => return none
    | some ⟨t, next, short⟩ =>
      let (op, column, _) ← relation? [t]
      return some ⟨(op, column), next, short⟩

mutual

/-- Reads an expression of a level from a position on. -/
def parseLevel? (tokens : List Token) (level : Level) (current : Nat) :
    Parsed (Moved tokens Expr (tokens.length - current)) :=
  match level with
  | .joined join => do
    have := join.rank_operand_lt
    let ⟨left, next, _⟩ ← parseLevel? tokens join.operand current
    let ⟨e, last, _⟩ ← joinOnto? tokens join left next
    return ⟨e, last, by omega⟩
  | .not => do
    match ← match? tokens current [.notWord] with
    | some ⟨t, next, _⟩ =>
      let ⟨operand, last, _⟩ ← parseLevel? tokens .not next
      return ⟨.unary .not t.column operand, last, by omega⟩
    | none => parseLevel? tokens .comparison current
  | .comparison => do
    let ⟨first, next, _⟩ ← parseLevel? tokens (.joined .sum) current
    let ⟨links, last, _⟩ ← comparisons? tokens next
    return ⟨if links.isEmpty then first else .comparison first links, last, by omega⟩
  | .signed => do
    match ← match? tokens current [.minus, .plus] with
    | some ⟨t, next, _⟩ =>
      let ⟨operand, last, _⟩ ← parseLevel? tokens .signed next
      let op ← sign? t
      return ⟨.unary op t.column operand, last, by omega⟩
    | none => parseLevel? tokens .power current
  | .power => do
    let ⟨base, next, _⟩ ← parseLevel? tokens .trailed current
    match ← match? tokens next [.starStar] with
    | some ⟨t, behind, _⟩ =>
      let ⟨exponent, last, _⟩ ← parseLevel? tokens .signed behind
      return ⟨.arith .pow t.column base exponent, last, by omega⟩
    | none => return ⟨base, next, by omega⟩
  | .trailed => do
    let ⟨operand, next, _⟩ ← parseLevel? tokens .primary current
    let ⟨e, last, _⟩ ← trailers? tokens operand next
    return ⟨e, last, by omega⟩
  | .primary => do
    match ← match? tokens current atomKinds with
    | some ⟨t, next, short⟩ =>
      match atom t with
      | .error fault => throw fault
      | .ok e => return ⟨e, next, short⟩
    | none =>
      match ← match? tokens current [.leftParen] with
      | some ⟨_, next, _⟩ =>
        let ⟨e, behind, _⟩ ← parseLevel? tokens (.joined .or) next
        let ⟨_, last, _⟩ ← consume? tokens .group behind
        return ⟨e, last, by omega⟩
      | none =>
        match ← match? tokens current [.leftBracket] with
        | some ⟨_, next, _⟩ =>
          let ⟨elements, last, _⟩ ← sequence? tokens .list next
          return ⟨.list elements, last, by omega⟩
        | none =>
          let found ← look? tokens current
          throw (.noOperand found.kind found.column)
termination_by (tokens.length - current) * 16 + level.rank
decreasing_by all_goals simp_all [Level.rank] <;> omega

/-- Joins further operands of a level to what was read. -/
def joinOnto? (tokens : List Token) (join : Join) (left : Expr) (current : Nat) :
    Parsed (Moved tokens Expr (tokens.length - current + 1)) := do
  match ← match? tokens current (joinKinds join) with
  | none => return ⟨left, current, by omega⟩
  | some ⟨t, next, _⟩ =>
    let ⟨right, behind, _⟩ ← parseLevel? tokens join.operand next
    let build ← join.build? t
    let ⟨e, last, _⟩ ← joinOnto? tokens join (build left right) behind
    return ⟨e, last, by omega⟩
termination_by (tokens.length - current) * 16 + 10
decreasing_by
  all_goals have := join.operand.rank_lt
  all_goals simp_all; omega

/-- Reads the comparisons that go on a chain. -/
def comparisons? (tokens : List Token) (current : Nat) :
    Parsed (Moved tokens (List (Relation × Nat × Expr)) (tokens.length - current + 1)) := do
  match ← relationAt? tokens current with
  | none => return ⟨[], current, by omega⟩
  | some ⟨(op, column), next, _⟩ =>
    let ⟨operand, behind, _⟩ ← parseLevel? tokens (.joined .sum) next
    let ⟨links, last, _⟩ ← comparisons? tokens behind
    return ⟨(op, column, operand) :: links, last, by omega⟩
termination_by (tokens.length - current) * 16 + 10
decreasing_by all_goals first | omega | (simp only [Level.rank]; omega)

/-- Adds further calls and subscripts to an operand. -/
def trailers? (tokens : List Token) (operand : Expr) (current : Nat) :
    Parsed (Moved tokens Expr (tokens.length - current + 1)) := do
  match ← match? tokens current [.leftParen] with
  | some ⟨t, next, _⟩ =>
    match callee? operand with
    | some (name, column) =>
      let ⟨arguments, behind, _⟩ ← sequence? tokens .arguments next
      let ⟨e, last, _⟩ ← trailers? tokens (.call name column arguments) behind
      return ⟨e, last, by omega⟩
    | none => throw (.notNamed t.column)
  | none =>
    match ← match? tokens current [.leftBracket] with
    | some ⟨t, next, _⟩ =>
      let ⟨index, behind, _⟩ ← parseLevel? tokens (.joined .or) next
      let ⟨_, closed, _⟩ ← consume? tokens .index behind
      let ⟨e, last, _⟩ ← trailers? tokens (.subscript t.column operand index) closed
      return ⟨e, last, by omega⟩
    | none => return ⟨operand, current, by omega⟩
termination_by (tokens.length - current) * 16 + 10
decreasing_by all_goals first | omega | (simp only [Level.rank]; omega)

/-- Reads expressions between commas up to the closing token, which is passed; a comma may
stand before it. -/
def sequence? (tokens : List Token) (closing : Closing) (current : Nat) :
    Parsed (Moved tokens (List Expr) (tokens.length - current)) := do
  match ← match? tokens current [closing.kind] with
  | some ⟨_, next, short⟩ => return ⟨[], next, short⟩
  | none =>
    let ⟨e, behind, _⟩ ← parseLevel? tokens (.joined .or) current
    match ← match? tokens behind [.comma] with
    | some ⟨_, next, _⟩ =>
      let ⟨es, last, _⟩ ← sequence? tokens closing next
      return ⟨e :: es, last, by omega⟩
    | none =>
      let ⟨_, last, _⟩ ← consume? tokens closing behind
      return ⟨[e], last, by omega⟩
termination_by (tokens.length - current) * 16 + 11
decreasing_by all_goals simp_all [Level.rank] <;> omega

end

/-- The expression that tokens form, read by their positions. -/
def parseByPosition? (tokens : List Token) : Option (Except ParseFault Expr) :=
  ExceptT.run do
    let ⟨e, last, _⟩ ← parseLevel? tokens (.joined .or) 0
    if ← atEnd? tokens last then return e
    let t ← look? tokens last
    throw (.unexpected t.kind t.column)

end Offside.Access
