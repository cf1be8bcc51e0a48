import SqlFlow.Program.Assembly

/-!
# Block trees

The structured form of a script: statements, and blocks with the lines that open, divide and close
them. A tree carries the lines themselves, so that it can be written out again.

* `Tree` and `Branch`: a statement or a block, and what follows the body of a member of a chain.
* `Tree.flatten`: the fragments of a tree in the order of the script.
* `Tree.code`: the statements of a tree that starts at a given index, every target computed from
  the sizes of the bodies. `content_code`: one statement for each fragment, which differs from it
  in nothing but the target.
* `Conditioned`: the fragments have the conditions that the dialect asks for.
-/

namespace SqlFlow

/-- A line of a script, without what marks it as a directive. -/
structure Line where
  text : String
  raw : String
  number : Nat
deriving DecidableEq, Repr

namespace Line

def fragment (l : Line) (kind : FragmentKind) : Fragment :=
  { kind, text := l.text, raw := l.raw, line := l.number }

def directive (l : Line) (d : Directive) : Fragment := l.fragment (.directive d)

def statement (l : Line) (kind : StatementKind) (target : Option Nat := none) : Statement :=
  { kind, text := l.text, target, line := l.number }

end Line

/-- The directive that opens an attempt. -/
def Directive.attemptOf (transactional : Bool) : Directive :=
  if transactional then .attemptTransaction else .attempt

mutual

/-- A statement or a block of a script. -/
inductive Tree where
  | sql (l : Line)
  | debug (l : Line)
  | chain (opener : Line) (body : List Tree) (rest : Branch)
  | attempt (transactional : Bool) (opener : Line) (body : List Tree)
      (middle : Line) (handler : List Tree) (closer : Line)
  | transaction (opener : Line) (body : List Tree) (closer : Line)

/-- What follows the body of a member of a chain: its end or its next member. -/
inductive Branch where
  | done (closer : Line)
  | otherwise (opener : Line) (body : List Tree) (closer : Line)
  | elseIf (opener : Line) (body : List Tree) (rest : Branch)

end

/-! ## Writing a tree out -/

mutual

/-- The fragments of a tree. -/
def Tree.flatten : Tree → List Fragment
  | .sql l => [l.fragment .sql]
  | .debug l => [l.directive .debug]
  | .chain opener body rest =>
    opener.directive .ifThen :: (Tree.flattenAll body ++ rest.flatten)
  | .attempt transactional opener body middle handler closer =>
    opener.directive (.attemptOf transactional) :: (Tree.flattenAll body ++
      middle.directive .handler :: (Tree.flattenAll handler ++ [closer.directive .endAttempt]))
  | .transaction opener body closer =>
    opener.directive .beginTransaction ::
      (Tree.flattenAll body ++ [closer.directive .endTransaction])

def Tree.flattenAll : List Tree → List Fragment
  | [] => []
  | t :: ts => t.flatten ++ Tree.flattenAll ts

def Branch.flatten : Branch → List Fragment
  | .done closer => [closer.directive .endIf]
  | .otherwise opener body closer =>
    opener.directive .otherwise :: (Tree.flattenAll body ++ [closer.directive .endIf])
  | .elseIf opener body rest =>
    opener.directive .elseIf :: (Tree.flattenAll body ++ rest.flatten)

end

/-- The number of fragments of a tree. -/
def Tree.size (t : Tree) : Nat := t.flatten.length

def Tree.sizeAll (ts : List Tree) : Nat := (flattenAll ts).length

def Branch.size (b : Branch) : Nat := b.flatten.length

section Sizes

variable (l m n : Line) (body handler : List Tree) (rest : Branch) (transactional : Bool)

@[simp] theorem Tree.size_chain :
    (Tree.chain l body rest).size = 1 + Tree.sizeAll body + rest.size := by
  simp [Tree.size, Tree.flatten, Tree.sizeAll, Branch.size]; omega

@[simp] theorem Tree.size_attempt :
    (Tree.attempt transactional l body m handler n).size
      = 1 + Tree.sizeAll body + 1 + Tree.sizeAll handler + 1 := by
  simp [Tree.size, Tree.flatten, Tree.sizeAll]; omega

@[simp] theorem Tree.size_transaction :
    (Tree.transaction l body n).size = 1 + Tree.sizeAll body + 1 := by
  simp [Tree.size, Tree.flatten, Tree.sizeAll]; omega

@[simp] theorem Tree.sizeAll_cons (t : Tree) (ts : List Tree) :
    Tree.sizeAll (t :: ts) = t.size + Tree.sizeAll ts := by
  simp [Tree.sizeAll, Tree.flattenAll, Tree.size]

@[simp] theorem Branch.size_otherwise :
    (Branch.otherwise l body n).size = 1 + Tree.sizeAll body + 1 := by
  simp [Branch.size, Branch.flatten, Tree.sizeAll]; omega

@[simp] theorem Branch.size_elseIf :
    (Branch.elseIf l body rest).size = 1 + Tree.sizeAll body + rest.size := by
  simp [Branch.size, Branch.flatten, Tree.sizeAll]; omega

end Sizes

/-- In a dialect that asks for conditions, every `if` and `elseif` has one. -/
def Conditioned (d : Dialect) (fragments : List Fragment) : Prop :=
  d.requireConditions = true → ∀ f ∈ fragments,
    f.kind = .directive .ifThen ∨ f.kind = .directive .elseIf → Text.allBlank f.text.toList = false

instance (d : Dialect) (fragments : List Fragment) : Decidable (Conditioned d fragments) := by
  unfold Conditioned; infer_instance

theorem conditioned_cons {d : Dialect} {f : Fragment} {fragments : List Fragment} :
    Conditioned d (f :: fragments) ↔ Conditioned d [f] ∧ Conditioned d fragments := by
  simp only [Conditioned, List.forall_mem_cons, List.not_mem_nil]
  grind

theorem conditioned_append {d : Dialect} {as bs : List Fragment} :
    Conditioned d (as ++ bs) ↔ Conditioned d as ∧ Conditioned d bs := by
  simp only [Conditioned, List.forall_mem_append]
  grind

/-! ## The statements of a tree -/

mutual

/-- The statements of a tree whose first one has the index `here`. A member of a chain branches to
the next one, an attempt to its handler and a handler to the end of the attempt. -/
def Tree.code : Tree → (here : Nat) → List Statement
  | .sql l, _ => [l.statement .sql]
  | .debug l, _ => [l.statement (.directive .debug)]
  | .chain opener body rest, here =>
    let next := here + 1 + Tree.sizeAll body
    opener.statement (.directive .ifThen) (some next) ::
      (Tree.codeAll body (here + 1) ++ rest.code next)
  | .attempt transactional opener body middle handler closer, here =>
    let next := here + 1 + Tree.sizeAll body
    let last := next + 1 + Tree.sizeAll handler
    opener.statement (.directive (.attemptOf transactional)) (some next) ::
      (Tree.codeAll body (here + 1) ++ middle.statement (.directive .handler) (some last) ::
        (Tree.codeAll handler (next + 1) ++ [closer.statement (.directive .endAttempt)]))
  | .transaction opener body closer, here =>
    opener.statement (.directive .beginTransaction) ::
      (Tree.codeAll body (here + 1) ++ [closer.statement (.directive .endTransaction)])

def Tree.codeAll : List Tree → (here : Nat) → List Statement
  | [], _ => []
  | t :: ts, here => t.code here ++ Tree.codeAll ts (here + t.size)

def Branch.code : Branch → (here : Nat) → List Statement
  | .done closer, _ => [closer.statement (.directive .endIf)]
  | .otherwise opener body closer, here =>
    opener.statement (.directive .otherwise) (some (here + 1 + Tree.sizeAll body)) ::
      (Tree.codeAll body (here + 1) ++ [closer.statement (.directive .endIf)])
  | .elseIf opener body rest, here =>
    let next := here + 1 + Tree.sizeAll body
    opener.statement (.directive .elseIf) (some next) ::
      (Tree.codeAll body (here + 1) ++ rest.code next)

end

/-! ## One statement for each fragment -/

/-- What the statement of such a fragment does. -/
def FragmentKind.statementKind : FragmentKind → StatementKind
  | .sql => .sql
  | .directive d => .directive d
  | .fault _ => .invalid

/-- What a statement has from its fragment: everything but the target. -/
def Statement.content (s : Statement) : StatementKind × String × Nat := (s.kind, s.text, s.line)

def Fragment.content (f : Fragment) : StatementKind × String × Nat :=
  (f.kind.statementKind, f.text, f.line)

@[simp] theorem Line.content_statement (l : Line) (kind : StatementKind) (target : Option Nat) :
    (l.statement kind target).content = (kind, l.text, l.number) := rfl

@[simp] theorem Line.content_directive (l : Line) (d : Directive) :
    (l.directive d).content = (.directive d, l.text, l.number) := rfl

mutual

theorem Tree.content_code : (t : Tree) → (here : Nat) →
    (t.code here).map Statement.content = t.flatten.map Fragment.content
  | .sql _, _ => rfl
  | .debug _, _ => rfl
  | .chain _ body rest, here => by
    simp [Tree.code, Tree.flatten, Tree.content_codeAll body, Branch.content_code rest]
  | .attempt _ _ body _ handler _, here => by
    simp [Tree.code, Tree.flatten, Tree.content_codeAll body, Tree.content_codeAll handler]
  | .transaction _ body _, here => by
    simp [Tree.code, Tree.flatten, Tree.content_codeAll body]

theorem Tree.content_codeAll : (ts : List Tree) → (here : Nat) →
    (Tree.codeAll ts here).map Statement.content = (Tree.flattenAll ts).map Fragment.content
  | [], _ => rfl
  | t :: ts, here => by
    simp [Tree.codeAll, Tree.flattenAll, Tree.content_code t, Tree.content_codeAll ts]

theorem Branch.content_code : (b : Branch) → (here : Nat) →
    (b.code here).map Statement.content = b.flatten.map Fragment.content
  | .done _, _ => rfl
  | .otherwise _ body _, here => by
    simp [Branch.code, Branch.flatten, Tree.content_codeAll body]
  | .elseIf _ body rest, here => by
    simp [Branch.code, Branch.flatten, Tree.content_codeAll body, Branch.content_code rest]

end

@[simp] theorem Tree.length_code (t : Tree) (here : Nat) : (t.code here).length = t.size := by
  simpa [Tree.size] using congrArg List.length (Tree.content_code t here)

@[simp] theorem Tree.length_codeAll (ts : List Tree) (here : Nat) :
    (Tree.codeAll ts here).length = Tree.sizeAll ts := by
  simpa [Tree.sizeAll] using congrArg List.length (Tree.content_codeAll ts here)

@[simp] theorem Branch.length_code (b : Branch) (here : Nat) : (b.code here).length = b.size := by
  simpa [Branch.size] using congrArg List.length (Branch.content_code b here)

end SqlFlow
