import SqlFlow.Proofs.Tree.Reading

/-!
# The grammar of scripts

A script is well nested when the kinds of its fragments derive from

    block     ::= item*
    item      ::= sql | debug
                | if block elseIfs otherwise endif
                | (try | trytransaction) block catch block endtry
                | begin block endtransaction
    elseIfs   ::= (elseif block)*
    otherwise ::= (else block)?

* `Derives`: the grammar, as a relation between a phrase and the kinds that it is made of.
* `derives_flattenAll` and `written_of_derives`: the sentences of the grammar are the kinds of the
  fragments of trees.

The scripts that assemble without an error are the sentences of the grammar with the conditions that
the dialect asks for.
-/

namespace SqlFlow

/-- A phrase of the grammar. -/
inductive Phrase where
  | block
  | item
  | elseIfs
  | otherwise

/-- The kinds that a phrase may be made of. -/
inductive Derives : Phrase → List FragmentKind → Prop where
  | nil : Derives .block []
  | cons {u w : List FragmentKind} (hu : Derives .item u) (hw : Derives .block w) :
      Derives .block (u ++ w)
  | sql : Derives .item [.sql]
  | debug : Derives .item [.directive .debug]
  | chain {u v w : List FragmentKind} (hu : Derives .block u) (hv : Derives .elseIfs v)
      (hw : Derives .otherwise w) :
      Derives .item (.directive .ifThen :: (u ++ (v ++ (w ++ [.directive .endIf]))))
  | attempt {u v : List FragmentKind} (transactional : Bool) (hu : Derives .block u)
      (hv : Derives .block v) :
      Derives .item (.directive (.attemptOf transactional) ::
        (u ++ .directive .handler :: (v ++ [.directive .endAttempt])))
  | transaction {u : List FragmentKind} (hu : Derives .block u) :
      Derives .item (.directive .beginTransaction :: (u ++ [.directive .endTransaction]))
  | noElseIf : Derives .elseIfs []
  | elseIf {u v : List FragmentKind} (hu : Derives .block u) (hv : Derives .elseIfs v) :
      Derives .elseIfs (.directive .elseIf :: (u ++ v))
  | noOtherwise : Derives .otherwise []
  | otherwise {u : List FragmentKind} (hu : Derives .block u) :
      Derives .otherwise (.directive .otherwise :: u)

/-! ## Trees are derived -/

theorem Line.kind_directive (l : Line) (d : Directive) : (l.directive d).kind = .directive d := rfl

mutual

theorem derives_flatten : (t : Tree) → Derives .item (t.flatten.map Fragment.kind)
  | .sql _ => .sql
  | .debug _ => .debug
  | .chain opener body rest => by
    obtain ⟨v, w, hv, hw, hrest⟩ := derives_branch rest
    simpa [Tree.flatten, hrest, Line.kind_directive] using
      Derives.chain (derives_flattenAll body) hv hw
  | .attempt transactional opener body middle handler closer => by
    simpa [Tree.flatten, Line.kind_directive] using
      Derives.attempt transactional (derives_flattenAll body) (derives_flattenAll handler)
  | .transaction opener body closer => by
    simpa [Tree.flatten, Line.kind_directive] using
      Derives.transaction (derives_flattenAll body)

theorem derives_flattenAll : (ts : List Tree) →
    Derives .block ((Tree.flattenAll ts).map Fragment.kind)
  | [] => .nil
  | t :: ts => by
    simpa [Tree.flattenAll] using Derives.cons (derives_flatten t) (derives_flattenAll ts)

/-- A branch is the end of a chain: further members, perhaps an `else`, and the closing line. -/
theorem derives_branch : (b : Branch) → ∃ v w, Derives .elseIfs v ∧ Derives .otherwise w ∧
    b.flatten.map Fragment.kind = v ++ (w ++ [.directive .endIf])
  | .done closer => ⟨[], [], .noElseIf, .noOtherwise, rfl⟩
  | .otherwise opener body closer =>
    ⟨[], _, .noElseIf, .otherwise (derives_flattenAll body), by
      simp [Branch.flatten, Line.kind_directive]⟩
  | .elseIf opener body rest => by
    obtain ⟨v, w, hv, hw, hrest⟩ := derives_branch rest
    refine ⟨_, w, .elseIf (derives_flattenAll body) hv, hw, ?_⟩
    simp [Branch.flatten, Line.kind_directive, hrest]

end

/-! ## What is derived is a tree -/

/-- A fragment is a line with its kind. -/
theorem exists_line_of_map_kind {fs : List Fragment} {kind : FragmentKind}
    {w : List FragmentKind} (h : fs.map Fragment.kind = kind :: w) :
    ∃ (l : Line) (as : List Fragment), l.fragment kind :: as = fs ∧ as.map Fragment.kind = w := by
  obtain ⟨f, as, rfl, rfl, has⟩ := List.map_eq_cons_iff.1 h
  exact ⟨⟨f.text, f.raw, f.line⟩, as, rfl, has⟩

theorem exists_line_of_map_kind_singleton {fs : List Fragment} {kind : FragmentKind}
    (h : fs.map Fragment.kind = [kind]) : ∃ l : Line, [l.fragment kind] = fs := by
  obtain ⟨l, as, rfl, has⟩ := exists_line_of_map_kind h
  obtain rfl := List.map_eq_nil_iff.1 has
  exact ⟨l, rfl⟩

/-- The fragments that a phrase is made of, as trees. The members of a chain are told by what they
make of the branch behind them. -/
def Phrase.Written : Phrase → List Fragment → Prop
  | .block, fs => ∃ ts, Tree.flattenAll ts = fs
  | .item, fs => ∃ t : Tree, t.flatten = fs
  | .elseIfs, fs => ∀ rest : Branch, ∃ b : Branch, b.flatten = fs ++ rest.flatten
  | .otherwise, fs => ∀ closer : Line, ∃ b : Branch, b.flatten = fs ++ [closer.directive .endIf]

theorem written_of_derives {p : Phrase} {w : List FragmentKind} (h : Derives p w) :
    ∀ fs : List Fragment, fs.map Fragment.kind = w → p.Written fs := by
  induction h with
  | nil =>
    intro fs hfs
    exact ⟨[], (List.map_eq_nil_iff.1 hfs).symm⟩
  | cons hu hw ihu ihw =>
    intro fs hfs
    obtain ⟨as, bs, rfl, has, hbs⟩ := List.map_eq_append_iff.1 hfs
    obtain ⟨t, rfl⟩ := ihu as has
    obtain ⟨ts, rfl⟩ := ihw bs hbs
    exact ⟨t :: ts, rfl⟩
  | sql =>
    intro fs hfs
    obtain ⟨l, rfl⟩ := exists_line_of_map_kind_singleton hfs
    exact ⟨.sql l, rfl⟩
  | debug =>
    intro fs hfs
    obtain ⟨l, rfl⟩ := exists_line_of_map_kind_singleton hfs
    exact ⟨.debug l, rfl⟩
  | chain hu hv hw ihu ihv ihw =>
    intro fs hfs
    obtain ⟨opener, as, rfl, has⟩ := exists_line_of_map_kind hfs
    obtain ⟨bs, cs, rfl, hbs, hcs⟩ := List.map_eq_append_iff.1 has
    obtain ⟨ds, es, rfl, hds, hes⟩ := List.map_eq_append_iff.1 hcs
    obtain ⟨gs, ks, rfl, hgs, hks⟩ := List.map_eq_append_iff.1 hes
    obtain ⟨closer, rfl⟩ := exists_line_of_map_kind_singleton hks
    obtain ⟨body, rfl⟩ := ihu bs hbs
    -- the chain is put together from its end: the `else`, then the members before it
    obtain ⟨last, hlast⟩ := ihw gs hgs closer
    obtain ⟨rest, hrest⟩ := ihv ds hds last
    refine ⟨.chain opener body rest, ?_⟩
    rw [Tree.flatten, hrest, hlast]
    rfl
  | attempt transactional hu hv ihu ihv =>
    intro fs hfs
    obtain ⟨opener, as, rfl, has⟩ := exists_line_of_map_kind hfs
    obtain ⟨bs, cs, rfl, hbs, hcs⟩ := List.map_eq_append_iff.1 has
    obtain ⟨middle, ds, rfl, hds⟩ := exists_line_of_map_kind hcs
    obtain ⟨es, ks, rfl, hes, hks⟩ := List.map_eq_append_iff.1 hds
    obtain ⟨closer, rfl⟩ := exists_line_of_map_kind_singleton hks
    obtain ⟨body, rfl⟩ := ihu bs hbs
    obtain ⟨handler, rfl⟩ := ihv es hes
    exact ⟨.attempt transactional opener body middle handler closer, rfl⟩
  | transaction hu ihu =>
    intro fs hfs
    obtain ⟨opener, as, rfl, has⟩ := exists_line_of_map_kind hfs
    obtain ⟨bs, ks, rfl, hbs, hks⟩ := List.map_eq_append_iff.1 has
    obtain ⟨closer, rfl⟩ := exists_line_of_map_kind_singleton hks
    obtain ⟨body, rfl⟩ := ihu bs hbs
    exact ⟨.transaction opener body closer, rfl⟩
  | noElseIf =>
    intro fs hfs rest
    obtain rfl := List.map_eq_nil_iff.1 hfs
    exact ⟨rest, rfl⟩
  | elseIf hu hv ihu ihv =>
    intro fs hfs rest
    obtain ⟨opener, as, rfl, has⟩ := exists_line_of_map_kind hfs
    obtain ⟨bs, cs, rfl, hbs, hcs⟩ := List.map_eq_append_iff.1 has
    obtain ⟨body, rfl⟩ := ihu bs hbs
    obtain ⟨b, hb⟩ := ihv cs hcs rest
    refine ⟨.elseIf opener body b, ?_⟩
    rw [Branch.flatten, hb, ← List.append_assoc]
    rfl
  | noOtherwise =>
    intro fs hfs closer
    obtain rfl := List.map_eq_nil_iff.1 hfs
    exact ⟨.done closer, rfl⟩
  | otherwise hu ihu =>
    intro fs hfs closer
    obtain ⟨opener, as, rfl, has⟩ := exists_line_of_map_kind hfs
    obtain ⟨body, rfl⟩ := ihu as has
    exact ⟨.otherwise opener body closer, rfl⟩

/-! ## What assembles -/

/-- The scripts whose programs can be run are the sentences of the grammar that have the conditions
asked for, and then each fragment has become a statement with its kind, its text and its line. -/
theorem assemble_accepts_iff_derives (d : Dialect) (fragments : List Fragment) :
    let p := Program.assemble d fragments
    ((p.executable = true ∧ p.error? = none) ↔
      (∀ f ∈ fragments, ∀ error, f.kind ≠ .fault error) ∧
        Derives .block (fragments.map Fragment.kind) ∧ Conditioned d fragments) ∧
    (p.executable = true ∧ p.error? = none →
      p.statements.toList.map Statement.content = fragments.map Fragment.content) := by
  refine ⟨⟨?_, ?_⟩, fun h => Program.content_of_error?_eq_none h.2⟩
  · rintro ⟨_, herror⟩
    obtain ⟨_, hconditioned, hkinds⟩ := Assembly.closes_of_run herror
    obtain ⟨ts, rfl, _⟩ := Program.exists_trees_of_error?_eq_none herror
    exact ⟨hkinds, derives_flattenAll ts, hconditioned⟩
  · rintro ⟨_, hderives, hconditioned⟩
    obtain ⟨ts, rfl⟩ := written_of_derives hderives fragments rfl
    have herror : (Program.assemble d (Tree.flattenAll ts)).error? = none := by
      rw [Program.assemble_flattenAll hconditioned]
    exact ⟨Program.executable_assemble_iff.2 herror, herror⟩

end SqlFlow
