import FlowSuite.Proofs.Condition.Tokens

/-!
# The grammar of conditions

`Derives n layer ts a` says that the tokens `ts`, all of them, are read at a layer of the grammar as the condition `a`,
and that none of them stands inside more than `n` parentheses and negations.

    or       = and ( "||" and )*
    and      = equality ( "&&" equality )*
    equality = order ( ( "==" / "!=" ) order )*
    order    = unary ( ( "<" / "<=" / ">" / ">=" ) unary )*
    unary    = "!" unary / operand
    operand  = primary ( "[" primary "]" / "." name )*
    primary  = "(" or ")" / literal / runtime expression

The chains lean to the left: the last operator of a chain stands at the top of its condition. Conditions are compared by
their `Shape`, which leaves out where they were read from.
-/

namespace FlowSuite

/-- A condition without the places it was read from and the texts it shows. -/
inductive Shape where
  | literal (value : Literal)
  | runtime (expression : String)
  | index (object index : Shape)
  | property (object : Shape) (name : String)
  | not (operand : Shape)
  | logical (connective : Connective) (left right : Shape)
  | comparison (operator : Comparison) (left right : Shape)
deriving DecidableEq, Repr

/-- The shape of a condition. -/
def Condition.shape : Condition → Shape
  | literal _ v => .literal v
  | runtime _ e => .runtime e
  | index _ o i => .index o.shape i.shape
  | property _ o n => .property o.shape n
  | not _ c => .not c.shape
  | logical _ k l r => .logical k l.shape r.shape
  | comparison _ op l r _ => .comparison op l.shape r.shape

@[simp] theorem Condition.shape_withSpan (s : Span) (c : Condition) : (c.withSpan s).shape = c.shape := by
  cases c <;> rfl

/-- The literal that a token stands for. Whole numbers have to fit in 64 bits, and decimal numbers have to be finite. -/
inductive Token.Denotes (t : Token) : Literal → Prop
  | int {n : Int} : t.kind = .int → Decimal.readInt? t.lexeme = some n → Decimal.isInt64 n → t.Denotes (.int n)
  | float {x : Binary64} : t.kind = .float → Decimal.readBinary64? t.lexeme = some x → t.Denotes (.float x)
  | string : t.kind = .string → t.Denotes (.string (String.ofList (Parser.unquote t.lexeme)))
  | word : t.kind = .word → t.Denotes (.string t.text)
  | trueWord : t.kind = .trueWord → t.Denotes (.bool true)
  | falseWord : t.kind = .falseWord → t.Denotes (.bool false)
  | nullWord : t.kind = .nullWord → t.Denotes .null

/-- The layers of the grammar, from the loosest operators inwards. -/
inductive Layer where
  | or
  | and
  | equality
  | order
  | unary
  | operand
  | primary
deriving DecidableEq, Repr

namespace Layer

/-- The layer between whose members the operators of a layer stand. -/
def inner? : Layer → Option Layer
  | or => some and
  | and => some equality
  | equality => some order
  | order => some unary
  | unary | operand | primary => none

/-- The operators of a layer, each with what it makes of its operands. -/
def operator? : Layer → TokenKind → Option (Shape → Shape → Shape)
  | or, .or => some (.logical .or)
  | and, .and => some (.logical .and)
  | equality, .equal => some (.comparison .eq)
  | equality, .notEqual => some (.comparison .ne)
  | order, .less => some (.comparison .lt)
  | order, .lessOrEqual => some (.comparison .le)
  | order, .greater => some (.comparison .gt)
  | order, .greaterOrEqual => some (.comparison .ge)
  | _, _ => none

end Layer

/-- The tokens are read at a layer, none of them inside more than so many parentheses and negations. -/
inductive Derives : (nesting : Nat) → Layer → List Token → Shape → Prop
  /-- A chain of one member. -/
  | single {n layer inner ts a} : layer.inner? = some inner → Derives n inner ts a → Derives n layer ts a
  /-- A longer chain: an operator and a last member behind a chain. -/
  | chain {n layer inner us t vs f a b} : layer.inner? = some inner → layer.operator? t.kind = some f →
      Derives n layer us a → Derives n inner vs b → Derives n layer (us ++ t :: vs) (f a b)
  | not {n t ts a} : t.kind = .not → Derives n .unary ts a → Derives (n + 1) .unary (t :: ts) (.not a)
  | unary {n ts a} : Derives n .operand ts a → Derives n .unary ts a
  | operand {n ts a} : Derives n .primary ts a → Derives n .operand ts a
  | index {n us opened vs closed a b} : opened.kind = .openBracket → closed.kind = .closeBracket →
      Derives n .operand us a → Derives n .primary vs b →
      Derives n .operand (us ++ opened :: (vs ++ [closed])) (.index a b)
  | property {n us dot name a} : dot.kind = .dot → Parser.isName name.kind → Derives n .operand us a →
      Derives n .operand (us ++ [dot, name]) (.property a name.text)
  | group {n opened ts closed a} : opened.kind = .openParen → closed.kind = .closeParen → Derives n .or ts a →
      Derives (n + 1) .primary (opened :: (ts ++ [closed])) a
  | literal {n t v} : t.Denotes v → Derives n .primary [t] (.literal v)
  | runtime {n t} : t.kind = .runtime → Derives n .primary [t] (.runtime t.text)

end FlowSuite
