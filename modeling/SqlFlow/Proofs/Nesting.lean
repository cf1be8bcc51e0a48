import SqlFlow.Proofs.Tree

/-!
# What the nesting discipline admits and refuses

`Nesting.accept` decides by the directive and by the innermost open block. `Admits` lists what it
lets pass, one constructor for each directive, as a relation between the open blocks before and
behind the directive. `accept_eq_ok_iff` says that the relation, together with the condition that
the dialect asks for, is what `accept` decides. `Refuses` lists what it refuses, one constructor for
each error, and `refuses_of_accept` says that this is so.
-/

namespace SqlFlow

/-- The line as the opener of a block. -/
def Line.opener (l : Line) (d : Directive) : Opener := ⟨d, l.number, l.raw⟩

namespace Nesting

/-- The open blocks before a directive, the earlier statement that it is the target of, and the open
blocks behind it. `here` is the index of the directive. -/
inductive Admits (opener : Opener) (here : Nat) : Nesting → Option Nat → Nesting → Prop where
  | debug {blocks : Nesting} (h : opener.directive = .debug) :
      Admits opener here blocks none blocks
  | ifThen {blocks : Nesting} (h : opener.directive = .ifThen) :
      Admits opener here blocks none (.chain opener here false :: blocks)
  | elseIf {first : Opener} {last : Nat} {outer : Nesting} (h : opener.directive = .elseIf) :
      Admits opener here (.chain first last false :: outer) (some last)
        (.chain first here false :: outer)
  | otherwise {first : Opener} {last : Nat} {outer : Nesting} (h : opener.directive = .otherwise) :
      Admits opener here (.chain first last false :: outer) (some last)
        (.chain first here true :: outer)
  | endIf {first : Opener} {last : Nat} {hasElse : Bool} {outer : Nesting}
      (h : opener.directive = .endIf) :
      Admits opener here (.chain first last hasElse :: outer) (some last) outer
  | attempt {blocks : Nesting} (transactional : Bool)
      (h : opener.directive = .attemptOf transactional) :
      Admits opener here blocks none (.attempt opener here :: blocks)
  | handler {first : Opener} {start : Nat} {outer : Nesting} (h : opener.directive = .handler) :
      Admits opener here (.attempt first start :: outer) (some start)
        (.handler first here :: outer)
  | endAttempt {first : Opener} {start : Nat} {outer : Nesting}
      (h : opener.directive = .endAttempt) :
      Admits opener here (.handler first start :: outer) (some start) outer
  | beginTransaction {blocks : Nesting} (h : opener.directive = .beginTransaction) :
      Admits opener here blocks none (.transaction opener :: blocks)
  | endTransaction {first : Opener} {outer : Nesting} (h : opener.directive = .endTransaction) :
      Admits opener here (.transaction first :: outer) none outer

/-- The directive has the condition that it has to have. -/
def HasCondition (d : Dialect) (x : Directive) (text : String) : Prop :=
  x = .ifThen ∨ x = .elseIf → lacksCondition d text = false

theorem hasCondition_iff {d : Dialect} {x : Directive} {l : Line} :
    HasCondition d x l.text ↔ Conditioned d [l.directive x] := by
  cases hd : d.requireConditions <;>
    simp [HasCondition, Conditioned, lacksCondition, Line.directive, Line.fragment, hd]

theorem accept_of_admits {d : Dialect} {opener : Opener} {text : String} {here : Nat}
    {blocks blocks' : Nesting} {links : Option Nat} (h : Admits opener here blocks links blocks')
    (hc : HasCondition d opener.directive text) :
    accept d opener text here blocks = ⟨links, .ok blocks'⟩ := by
  cases h with
  | attempt transactional h => cases transactional <;> simp_all [accept, Directive.attemptOf, become]
  | _ h => simp_all [accept, acceptMember, become, HasCondition]

/-- What `accept` lets pass it lets pass because of the innermost block, so the cases are the
directives and under each of them the kinds of that block. -/
theorem admits_of_accept {d : Dialect} {opener : Opener} {text : String} {here : Nat}
    {blocks blocks' : Nesting} {links : Option Nat}
    (h : accept d opener text here blocks = ⟨links, .ok blocks'⟩) :
    Admits opener here blocks links blocks' ∧ HasCondition d opener.directive text := by
  obtain ⟨x, line, raw⟩ := opener
  cases x with
  | debug =>
    obtain ⟨rfl, rfl⟩ : none = links ∧ blocks = blocks' := by simpa [accept, become] using h
    exact ⟨.debug rfl, by simp [HasCondition]⟩
  | ifThen =>
    cases hl : lacksCondition d text with
    | true => simp [accept, hl, refuse] at h
    | false =>
      obtain ⟨rfl, rfl⟩ : none = links ∧ .chain _ here false :: blocks = blocks' := by
        simpa [accept, hl, become] using h
      exact ⟨.ifThen rfl, fun _ => hl⟩
  | elseIf =>
    rcases blocks with _ | ⟨⟨first, last, _ | _⟩ | ⟨first, start⟩ | ⟨first, start⟩ | first, outer⟩ <;>
      simp [accept, acceptMember, refuse] at h
    cases hl : lacksCondition d text with
    | true => simp [hl] at h
    | false =>
      obtain ⟨rfl, rfl⟩ : some last = links ∧ .chain first here false :: outer = blocks' := by
        simpa [hl] using h
      exact ⟨.elseIf rfl, fun _ => hl⟩
  | otherwise =>
    rcases blocks with _ | ⟨⟨first, last, _ | _⟩ | ⟨first, start⟩ | ⟨first, start⟩ | first, outer⟩ <;>
      simp [accept, acceptMember, refuse] at h
    obtain ⟨rfl, rfl⟩ := h
    exact ⟨.otherwise rfl, by simp [HasCondition]⟩
  | endIf =>
    rcases blocks with _ | ⟨⟨first, last, hasElse⟩ | ⟨first, start⟩ | ⟨first, start⟩ | first, outer⟩ <;>
      simp [accept, refuse] at h
    obtain ⟨rfl, rfl⟩ := h
    exact ⟨.endIf rfl, by simp [HasCondition]⟩
  | attempt =>
    obtain ⟨rfl, rfl⟩ : none = links ∧ .attempt _ here :: blocks = blocks' := by
      simpa [accept, become] using h
    exact ⟨.attempt false rfl, by simp [HasCondition]⟩
  | attemptTransaction =>
    obtain ⟨rfl, rfl⟩ : none = links ∧ .attempt _ here :: blocks = blocks' := by
      simpa [accept, become] using h
    exact ⟨.attempt true rfl, by simp [HasCondition]⟩
  | handler =>
    rcases blocks with _ | ⟨⟨first, last, hasElse⟩ | ⟨first, start⟩ | ⟨first, start⟩ | first, outer⟩ <;>
      simp [accept, refuse] at h
    obtain ⟨rfl, rfl⟩ := h
    exact ⟨.handler rfl, by simp [HasCondition]⟩
  | endAttempt =>
    rcases blocks with _ | ⟨⟨first, last, hasElse⟩ | ⟨first, start⟩ | ⟨first, start⟩ | first, outer⟩ <;>
      simp [accept, refuse] at h
    obtain ⟨rfl, rfl⟩ := h
    exact ⟨.endAttempt rfl, by simp [HasCondition]⟩
  | beginTransaction =>
    obtain ⟨rfl, rfl⟩ : none = links ∧ .transaction _ :: blocks = blocks' := by
      simpa [accept, become] using h
    exact ⟨.beginTransaction rfl, by simp [HasCondition]⟩
  | endTransaction =>
    rcases blocks with _ | ⟨⟨first, last, hasElse⟩ | ⟨first, start⟩ | ⟨first, start⟩ | first, outer⟩ <;>
      simp [accept, refuse, become] at h
    obtain ⟨rfl, rfl⟩ := h
    exact ⟨.endTransaction rfl, by simp [HasCondition]⟩

theorem accept_eq_ok_iff {d : Dialect} {opener : Opener} {text : String} {here : Nat}
    {blocks blocks' : Nesting} {links : Option Nat} :
    accept d opener text here blocks = ⟨links, .ok blocks'⟩ ↔
      Admits opener here blocks links blocks' ∧ HasCondition d opener.directive text :=
  ⟨admits_of_accept, fun h => accept_of_admits h.1 h.2⟩

/-- A block that is open behind a directive was opened by it, or before it. -/
theorem Admits.opener_of_mem {opener : Opener} {here : Nat} {blocks blocks' : Nesting}
    {links : Option Nat} (h : Admits opener here blocks links blocks') {b : Block}
    (hb : b ∈ blocks') : b.opener = opener ∨ ∃ b' ∈ blocks, b.opener = b'.opener := by
  cases h with
  | debug => exact .inr ⟨b, hb, rfl⟩
  | endIf | endAttempt | endTransaction => exact .inr ⟨b, List.mem_cons_of_mem _ hb, rfl⟩
  | ifThen | attempt | beginTransaction =>
    rcases List.mem_cons.1 hb with rfl | hb
    · exact .inl rfl
    · exact .inr ⟨b, hb, rfl⟩
  | elseIf | otherwise | handler =>
    rcases List.mem_cons.1 hb with rfl | hb
    · exact .inr ⟨_, List.mem_cons_self, rfl⟩
    · exact .inr ⟨b, List.mem_cons_of_mem _ hb, rfl⟩

end Nesting

/-! ## What is refused -/

/-- The directive that opens what another one divides or closes; for `endtry` it is the `catch`. -/
def Directive.expected? : Directive → Option Directive
  | elseIf | otherwise | endIf => some ifThen
  | handler => some attempt
  | endAttempt => some handler
  | endTransaction => some beginTransaction
  | debug | ifThen | attempt | attemptTransaction | beginTransaction => none

/-- The directives that would cross the end of a transaction block if they stood in it. -/
def Directive.crossing : List Directive := [elseIf, otherwise, endIf, handler, endAttempt]

namespace Nesting

/-- The innermost block is one that the directive has to do with, whether it admits the directive or
refuses it for a reason of its own. Any directive that continues a block has to do with a transaction,
which it closes or crosses. -/
def Concerns : Block → Directive → Prop
  | .chain _ _ _, x => x = .elseIf ∨ x = .otherwise ∨ x = .endIf
  | .attempt _ _, x => x = .handler
  | .handler _ _, x => x = .endAttempt
  | .transaction _, _ => True

/-- The open blocks before a directive that is refused, and the error. -/
inductive Refuses (d : Dialect) (opener : Opener) (text : String) : Nesting → SyntaxError → Prop where
  | ifThen {blocks : Nesting} (h : opener.directive = .ifThen) (hc : lacksCondition d text = true) :
      Refuses d opener text blocks (.missingCondition opener.line opener.directive.keyword)
  | elseIf {first : Opener} {last : Nat} {outer : Nesting} (h : opener.directive = .elseIf)
      (hc : lacksCondition d text = true) :
      Refuses d opener text (.chain first last false :: outer)
        (.missingCondition opener.line opener.directive.keyword)
  | afterElse {first : Opener} {last : Nat} {outer : Nesting}
      (h : opener.directive = .elseIf ∨ opener.directive = .otherwise) :
      Refuses d opener text (.chain first last true :: outer)
        (.afterElse opener.line opener.directive.keyword)
  | openTransaction {first : Opener} {outer : Nesting}
      (h : opener.directive ∈ Directive.crossing) :
      Refuses d opener text (.transaction first :: outer)
        (.openTransaction opener.line opener.directive.keyword first.line)
  | unmatched {blocks : Nesting} (expected : Directive)
      (h : opener.directive.expected? = some expected)
      (hnone : ∀ block outer, blocks = block :: outer → ¬Concerns block opener.directive) :
      Refuses d opener text blocks
        (.unmatched opener.line opener.directive.keyword expected.keyword)

section

variable {d : Dialect} {opener : Opener} {text : String} {here : Nat} {blocks outer : Nesting}
  {first : Opener} {expected : Directive}

theorem accept_of_not_concerns (hx : opener.directive.expected? = some expected)
    (hnone : ∀ block outer, blocks = block :: outer → ¬Concerns block opener.directive) :
    accept d opener text here blocks =
      refuse (.unmatched opener.line opener.directive.keyword expected.keyword) := by
  obtain ⟨x, line, raw⟩ := opener
  cases x <;> simp only [Directive.expected?, reduceCtorEq, Option.some.injEq] at hx <;> subst hx <;>
    rcases blocks with _ | ⟨⟨first, last, hasElse⟩ | ⟨first, start⟩ | ⟨first, start⟩ | first, outer⟩ <;>
    simp [Concerns] at hnone <;> rfl

theorem accept_of_crossing (hx : opener.directive ∈ Directive.crossing) :
    accept d opener text here (.transaction first :: outer) =
      refuse (.openTransaction opener.line opener.directive.keyword first.line) := by
  obtain ⟨x, line, raw⟩ := opener
  cases x <;> simp [Directive.crossing] at hx <;> rfl

variable {error : SyntaxError}

/-- A chain refuses a member behind its `else`, or one that lacks its condition. -/
theorem refuses_of_chain {last : Nat} {hasElse : Bool}
    (hconcerns : Concerns (.chain first last hasElse) opener.directive)
    (h : (accept d opener text here (.chain first last hasElse :: outer)).result = .error error) :
    Refuses d opener text (.chain first last hasElse :: outer) error := by
  obtain ⟨x, line, raw⟩ := opener
  rcases hconcerns with rfl | rfl | rfl
  · cases hasElse with
    | true =>
      obtain rfl := Except.error.inj h
      exact .afterElse (.inl rfl)
    | false =>
      cases hl : lacksCondition d text with
      | true =>
        simp only [accept, acceptMember, hl, and_self, if_true, Except.error.injEq] at h
        exact h ▸ .elseIf rfl hl
      | false => simp [accept, acceptMember, hl] at h
  · cases hasElse with
    | true =>
      obtain rfl := Except.error.inj h
      exact .afterElse (.inr rfl)
    | false => simp [accept, acceptMember] at h
  · cases h

/-- The innermost block refuses a directive that it has to do with. -/
theorem refuses_of_concerns {block : Block} (hx : opener.directive.expected? = some expected)
    (hconcerns : Concerns block opener.directive)
    (h : (accept d opener text here (block :: outer)).result = .error error) :
    Refuses d opener text (block :: outer) error := by
  cases block with
  | chain first last hasElse => exact refuses_of_chain hconcerns h
  | attempt first start =>
    obtain ⟨x, line, raw⟩ := opener
    obtain rfl : x = .handler := hconcerns
    cases h
  | handler first start =>
    obtain ⟨x, line, raw⟩ := opener
    obtain rfl : x = .endAttempt := hconcerns
    cases h
  | transaction first =>
    by_cases hcrossing : opener.directive ∈ Directive.crossing
    · rw [accept_of_crossing hcrossing] at h
      obtain rfl := Except.error.inj h
      exact .openTransaction hcrossing
    · obtain ⟨x, line, raw⟩ := opener
      cases x <;> simp [Directive.crossing, Directive.expected?] at hcrossing hx
      cases h

/-- What `accept` refuses, it refuses because of the innermost block as well. -/
theorem refuses_of_accept (h : (accept d opener text here blocks).result = .error error) :
    Refuses d opener text blocks error := by
  cases hx : opener.directive.expected? with
  | none =>
    -- what needs no open block can only lack its condition
    obtain ⟨x, line, raw⟩ := opener
    cases x with
    | ifThen =>
      cases hl : lacksCondition d text with
      | true =>
        simp only [accept, hl, if_true, refuse, Except.error.injEq] at h
        exact h ▸ .ifThen rfl hl
      | false => simp [accept, hl, become] at h
    | debug | attempt | attemptTransaction | beginTransaction => simp [accept, become] at h
    | elseIf | otherwise | endIf | handler | endAttempt | endTransaction =>
      simp [Directive.expected?] at hx
  | some expected =>
    by_cases hnone : ∀ block outer, blocks = block :: outer → ¬Concerns block opener.directive
    · rw [accept_of_not_concerns hx hnone] at h
      obtain rfl := Except.error.inj h
      exact .unmatched expected hx hnone
    · simp only [Classical.not_forall, Classical.not_not] at hnone
      obtain ⟨block, outer, rfl, hconcerns⟩ := hnone
      exact refuses_of_concerns hx hconcerns h

end

end Nesting

end SqlFlow
