import FlightCurve.Vocabulary

/-!
Parse trees of curve expressions, one node for each use of a grammar rule:

* `sum` is `product (("+" | "-") product)*`,
* `product` is `signed (("*" | "/" | "//" | "%") signed)*`,
* `signed` is `"-"? power`,
* `power` is `call ("^" call)*`,
* `call` is `name primary primary | name primary | primary`,
* `primary` is `"(" sum ")" | name | number`.

The first, second and fourth are chains: operands of one rule with operators between them. A tree is
indexed by the rule that it derives, so only derivations can be written down.
-/

namespace FlightCurve

/-- The rules that join operands by operators. -/
inductive Chain
  | sum
  | product
  | power
  deriving DecidableEq, Repr

inductive Rule
  | chain (c : Chain)
  | signed
  | call
  | primary
  deriving DecidableEq, Repr

namespace Chain

/-- The rule that the operands of a chain follow. -/
abbrev operand : Chain → Rule
  | .sum => .chain .product
  | .product => .signed
  | .power => .call

/-- The operators of a chain. -/
abbrev Op : Chain → Type
  | .sum => AddOp
  | .product => MulOp
  | .power => Unit

/-- The operator that a token of this kind is in a chain. -/
def op? : (c : Chain) → Kind → Option c.Op
  | .sum, kind => AddOp.ofKind? kind
  | .product, kind => MulOp.ofKind? kind
  | .power, kind => if kind = .caret then some () else none

/-- The text of an operator of a chain. -/
def opText : (c : Chain) → c.Op → String
  | .sum, op => AddOp.text op
  | .product, op => MulOp.text op
  | .power, _ => "^"

end Chain

mutual

/-- A derivation of a rule. -/
inductive Tree : Rule → Type
  | chain {c : Chain} (first : Tree c.operand) (rest : Tail c) : Tree (.chain c)
  | signed (negated : Bool) (operand : Tree (.chain .power)) : Tree .signed
  | callOne (name : Placed String) (argument : Tree .primary) : Tree .call
  | callTwo (name : Placed String) (first second : Tree .primary) : Tree .call
  | plain (primary : Tree .primary) : Tree .call
  | group (inner : Tree (.chain .sum)) : Tree .primary
  | variable (name : Placed String) : Tree .primary
  | number (literal : Placed String) : Tree .primary

/-- What follows the first operand of a chain. -/
inductive Tail : Chain → Type
  | done {c : Chain} : Tail c
  | step {c : Chain} (op : Placed c.Op) (operand : Tree c.operand) (rest : Tail c) : Tail c

end

/-- An expression is a sum. -/
abbrev Expr := Tree (.chain .sum)

/-- An assignment `target = value`. -/
structure Assignment where
  target : Placed String
  value : Expr

mutual

/-- How deep parentheses nest in what the tree derives. -/
def Tree.nesting {r : Rule} : Tree r → Nat
  | .chain first rest => max first.nesting rest.nesting
  | .signed _ operand => operand.nesting
  | .callOne _ argument => argument.nesting
  | .callTwo _ first second => max first.nesting second.nesting
  | .plain primary => primary.nesting
  | .group inner => inner.nesting + 1
  | .variable _ => 0
  | .number _ => 0

def Tail.nesting {c : Chain} : Tail c → Nat
  | .done => 0
  | .step _ operand rest => max operand.nesting rest.nesting

end

end FlightCurve
