import SqlFlow.Proofs.Tree.Assembly

/-!
# Reading a script as block trees

The fragments of a script whose program has no error are those of a list of trees.

* `Ends` and `Closes`: what may follow the open blocks of a pass: for each block, from the innermost
  outwards, some trees and then the rest of the block.
* `closes_of_run`: a pass that ends without an error has been over such fragments. The induction
  runs from the end of the script, where no block is open, back to its start, and undoes one
  directive at a time: a directive that opens a block takes it off the list and makes a tree of it.
* `exists_trees_of_error?_eq_none` and `assemble_flattenAll`: the scripts without an error are those
  of conditioned trees, and their programs are the code of the trees.
* `executable_assemble_iff`: a program can be run exactly when it has no error.
-/

namespace SqlFlow

/-- The rest of an open block, from where its present body ends. -/
inductive Block.Ends : Block → List Fragment → Prop where
  | chain {first : Opener} {last : Nat} (rest : Branch) : Ends (.chain first last false) rest.flatten
  | chainElse {first : Opener} {last : Nat} (closer : Line) :
      Ends (.chain first last true) [closer.directive .endIf]
  | attempt {first : Opener} {start : Nat} (middle : Line) (handler : List Tree) (closer : Line) :
      Ends (.attempt first start) (middle.directive .handler ::
        (Tree.flattenAll handler ++ [closer.directive .endAttempt]))
  | handler {first : Opener} {start : Nat} (closer : Line) :
      Ends (.handler first start) [closer.directive .endAttempt]
  | transaction {first : Opener} (closer : Line) :
      Ends (.transaction first) [closer.directive .endTransaction]

/-- The fragments that close the open blocks, innermost first, with any trees before each end. -/
inductive Nesting.Closes : Nesting → List Fragment → Prop where
  | nil (ts : List Tree) : Closes [] (Tree.flattenAll ts)
  | cons {block : Block} {outer : Nesting} {v w : List Fragment} (ts : List Tree)
      (hv : block.Ends v) (hw : Closes outer w) :
      Closes (block :: outer) (Tree.flattenAll ts ++ (v ++ w))

namespace Nesting.Closes

/-- A tree may stand before fragments that close blocks. -/
theorem tree {blocks : Nesting} {w : List Fragment} (t : Tree) (h : Closes blocks w) :
    Closes blocks (t.flatten ++ w) := by
  cases h with
  | nil ts => exact .nil (t :: ts)
  | cons ts hv hw =>
    rw [← List.append_assoc]
    exact .cons (t :: ts) hv hw

/-- A block ends at once. -/
theorem ends {block : Block} {outer : Nesting} {v w : List Fragment} (hv : block.Ends v)
    (hw : Closes outer w) : Closes (block :: outer) (v ++ w) :=
  .cons [] hv hw

/-- One directive undone: what closes the blocks behind it also closes, with the directive in front,
the blocks before it. -/
theorem of_admits {l : Line} {x : Directive} {here : Nat} {blocks blocks' : Nesting}
    {links : Option Nat} {w : List Fragment} (h : Admits (l.opener x) here blocks links blocks')
    (hw : Closes blocks' w) : Closes blocks (l.directive x :: w) := by
  cases h with
  | debug hx =>
    obtain rfl : x = .debug := hx
    exact hw.tree (.debug l)
  | ifThen hx =>
    obtain rfl : x = .ifThen := hx
    cases hw with
    | cons body hv hw =>
      cases hv with
      | chain rest =>
        simpa [Tree.flatten] using hw.tree (.chain l body rest)
  | elseIf hx =>
    obtain rfl : x = .elseIf := hx
    cases hw with
    | cons body hv hw =>
      cases hv with
      | chain rest =>
        simpa [Branch.flatten] using ends (.chain (.elseIf l body rest)) hw
  | otherwise hx =>
    obtain rfl : x = .otherwise := hx
    cases hw with
    | cons body hv hw =>
      cases hv with
      | chainElse closer =>
        simpa [Branch.flatten] using ends (.chain (.otherwise l body closer)) hw
  | @endIf _ _ hasElse _ hx =>
    obtain rfl : x = .endIf := hx
    cases hasElse with
    | false => exact ends (.chain (.done l)) hw
    | true => exact ends (.chainElse l) hw
  | attempt transactional hx =>
    obtain rfl : x = .attemptOf transactional := hx
    cases hw with
    | cons body hv hw =>
      cases hv with
      | attempt middle handler closer =>
        simpa [Tree.flatten] using hw.tree (.attempt transactional l body middle handler closer)
  | handler hx =>
    obtain rfl : x = .handler := hx
    cases hw with
    | cons body hv hw =>
      cases hv with
      | handler closer =>
        simpa using ends (.attempt l body closer) hw
  | endAttempt hx =>
    obtain rfl : x = .endAttempt := hx
    exact ends (.handler l) hw
  | beginTransaction hx =>
    obtain rfl : x = .beginTransaction := hx
    cases hw with
    | cons body hv hw =>
      cases hv with
      | transaction closer =>
        simpa [Tree.flatten] using hw.tree (.transaction l body closer)
  | endTransaction hx =>
    obtain rfl : x = .endTransaction := hx
    exact ends (.transaction l) hw

end Nesting.Closes

namespace Assembly

theorem closes_of_run {d : Dialect} {w : List Fragment} {a : Assembly}
    (h : (a.run d w).error? = none) :
    Nesting.Closes a.blocks w ∧ Conditioned d w ∧ ∀ f ∈ w, ∀ error, f.kind ≠ .fault error := by
  induction w generalizing a with
  | nil =>
    cases hb : a.blocks with
    | nil => exact ⟨.nil [], by simp [Conditioned], by simp⟩
    | cons block outer => simp [run, finish, hb, refuse] at h
  | cons f w ih =>
    cases hadd : a.add d f with
    | error p =>
      obtain ⟨b, error, rfl⟩ := exists_refuse_of_add hadd
      simp [run, hadd, refuse] at h
    | ok b =>
      rw [run, hadd] at h
      obtain ⟨hcloses, hconditioned, hkinds⟩ := ih h
      rcases add_cases hadd with ⟨l, rfl, rfl⟩ | ⟨l, x, links, blocks, rfl, hc, hadmits, rfl⟩
      · refine ⟨hcloses.tree (.sql l), conditioned_cons.2 ⟨?_, hconditioned⟩, ?_⟩
        · simp [Conditioned, Line.fragment]
        · simpa [Line.fragment] using hkinds
      · refine ⟨hcloses.of_admits hadmits, conditioned_cons.2 ⟨hc, hconditioned⟩, ?_⟩
        simpa [Line.directive, Line.fragment] using hkinds

/-- A block that is open behind a fragment was opened by it, or before it. -/
theorem raw_of_add {d : Dialect} {a b : Assembly} {f : Fragment} (hadd : a.add d f = .ok b)
    {block : Block} (hblock : block ∈ b.blocks) :
    block.opener.raw = f.raw ∨ ∃ block' ∈ a.blocks, block.opener.raw = block'.opener.raw := by
  rcases add_cases hadd with ⟨l, rfl, rfl⟩ | ⟨l, x, links, blocks, rfl, -, hadmits, rfl⟩
  · exact .inr ⟨block, hblock, rfl⟩
  · rcases hadmits.opener_of_mem hblock with hopener | ⟨block', hblock', hopener⟩
    · exact .inl (congrArg Opener.raw hopener)
    · exact .inr ⟨block', hblock', congrArg Opener.raw hopener⟩

/-- A program with an error ends with it, and with a fragment or the opener of a block that is open. -/
theorem exists_refuse_of_run {d : Dialect} {w : List Fragment} {a : Assembly}
    (h : (a.run d w).error? ≠ none) :
    ∃ b error raw, a.run d w = Assembly.refuse b error raw ∧
      ((∃ block ∈ a.blocks, raw = block.opener.raw) ∨ ∃ f ∈ w, raw = f.raw) := by
  induction w generalizing a with
  | nil =>
    cases hb : a.blocks with
    | nil => simp [run, finish, hb] at h
    | cons block outer =>
      exact ⟨a, _, _, by rw [run, finish, hb], .inl ⟨block, List.mem_cons_self, rfl⟩⟩
  | cons f w ih =>
    cases hadd : a.add d f with
    | error p =>
      obtain ⟨b, error, rfl⟩ := exists_refuse_of_add hadd
      exact ⟨b, error, f.raw, by rw [run, hadd], .inr ⟨f, List.mem_cons_self, rfl⟩⟩
    | ok b =>
      rw [run, hadd] at h ⊢
      obtain ⟨c, error, raw, hrefuse, ⟨block, hblock, rfl⟩ | ⟨g, hg, rfl⟩⟩ := ih h
      · refine ⟨c, error, _, hrefuse, ?_⟩
        rcases raw_of_add hadd hblock with hraw | ⟨block', hblock', hraw⟩
        · exact .inr ⟨f, List.mem_cons_self, hraw⟩
        · exact .inl ⟨block', hblock', hraw⟩
      · exact ⟨c, error, _, hrefuse, .inr ⟨g, List.mem_cons_of_mem f hg, rfl⟩⟩

end Assembly

/-- The program of trees is their code. -/
theorem Program.assemble_flattenAll {d : Dialect} {ts : List Tree}
    (h : Conditioned d (Tree.flattenAll ts)) :
    Program.assemble d (Tree.flattenAll ts) = ⟨(Tree.codeAll ts 0).toArray, none⟩ := by
  have hrun := Assembly.run_flattenAll (d := d) ts {} [] h
  rw [List.append_nil] at hrun
  rw [Program.assemble, hrun]
  simp [Assembly.run, Assembly.finish, Assembly.extend]

/-- A script whose program has no error is the script of conditioned trees. -/
theorem Program.exists_trees_of_error?_eq_none {d : Dialect} {fragments : List Fragment}
    (h : (Program.assemble d fragments).error? = none) :
    ∃ ts, fragments = Tree.flattenAll ts ∧ Conditioned d (Tree.flattenAll ts) := by
  obtain ⟨hcloses, hconditioned, _⟩ := Assembly.closes_of_run h
  cases hcloses with
  | nil ts => exact ⟨ts, rfl, hconditioned⟩

theorem Program.content_of_error?_eq_none {d : Dialect} {fragments : List Fragment}
    (h : (Program.assemble d fragments).error? = none) :
    (Program.assemble d fragments).statements.toList.map Statement.content
      = fragments.map Fragment.content := by
  obtain ⟨ts, rfl, hc⟩ := exists_trees_of_error?_eq_none h
  rw [assemble_flattenAll hc]
  exact Tree.content_codeAll ts 0

/-- The statement that stands for an error has the text of a fragment. -/
theorem Program.exists_raw_of_error?_ne_none {d : Dialect} {fragments : List Fragment}
    (h : (Program.assemble d fragments).error? ≠ none) :
    ∃ a error, ∃ f ∈ fragments, Program.assemble d fragments = Assembly.refuse a error f.raw := by
  obtain ⟨a, error, raw, hrefuse, ⟨block, hblock, -⟩ | ⟨f, hf, rfl⟩⟩ := Assembly.exists_refuse_of_run h
  · cases hblock
  · exact ⟨a, error, f, hf, hrefuse⟩

/-- A program can be run when it has no error, and only then: an error stands in the last statement,
and without one no statement stands for an error. -/
theorem Program.executable_assemble_iff {d : Dialect} {fragments : List Fragment} :
    (Program.assemble d fragments).executable = true ↔
      (Program.assemble d fragments).error? = none := by
  constructor
  · intro hexecutable
    cases herror : (Program.assemble d fragments).error? with
    | none => rfl
    | some error =>
      have hne : (Program.assemble d fragments).error? ≠ none := by simp [herror]
      obtain ⟨a, error, f, -, hrefuse⟩ := Program.exists_raw_of_error?_ne_none hne
      rw [hrefuse] at hexecutable
      simp [Program.executable, Assembly.refuse] at hexecutable
  · intro herror
    obtain ⟨_, _, hkinds⟩ := Assembly.closes_of_run herror
    have hcontent := Program.content_of_error?_eq_none herror
    rw [Program.executable]
    split
    · rfl
    · next s hback =>
      have hs : s.content ∈ fragments.map Fragment.content := by
        rw [← hcontent]
        exact List.mem_map_of_mem (Array.mem_toList_iff.2 (Array.mem_of_back? hback))
      obtain ⟨f, hf, hfs⟩ := List.mem_map.1 hs
      have hkind : f.kind.statementKind = s.kind := congrArg Prod.fst hfs
      cases hk : f.kind with
      | fault error => exact absurd hk (hkinds f hf error)
      | sql => simp [← hkind, hk, FragmentKind.statementKind]
      | directive x => simp [← hkind, hk, FragmentKind.statementKind]

end SqlFlow
