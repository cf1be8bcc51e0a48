import SqlFlow.Proofs.Tree

/-!
# Directives put into a script

A `debug` directive opens nothing and closes nothing, so it may stand anywhere in a script of block trees.

* `Tree.Inserts`: the second tree is the first one with a `debug` directive at one place of a body of it.
* `Tree.exists_insertsAll`: wherever the fragments of trees are cut, there are trees with the directive
  at the cut. The induction is on the tree. A cut behind the line that opens or divides a block is in the
  body that begins there, and one before the line that ends the body is still in it, so that the cuts in
  what follows a body are those behind its first line.
-/

namespace SqlFlow

mutual

/-- A `debug` directive is put into the tree. -/
inductive Tree.Inserts (l : Line) : Tree → Tree → Prop where
  | chainBody {opener : Line} {body body' : List Tree} {rest : Branch}
      (h : Tree.InsertsAll l body body') :
      Tree.Inserts l (.chain opener body rest) (.chain opener body' rest)
  | chainRest {opener : Line} {body : List Tree} {rest rest' : Branch}
      (h : Branch.Inserts l rest rest') :
      Tree.Inserts l (.chain opener body rest) (.chain opener body rest')
  | attemptBody {transactional : Bool} {opener middle closer : Line} {body body' handler : List Tree}
      (h : Tree.InsertsAll l body body') :
      Tree.Inserts l (.attempt transactional opener body middle handler closer)
        (.attempt transactional opener body' middle handler closer)
  | handler {transactional : Bool} {opener middle closer : Line} {body handler handler' : List Tree}
      (h : Tree.InsertsAll l handler handler') :
      Tree.Inserts l (.attempt transactional opener body middle handler closer)
        (.attempt transactional opener body middle handler' closer)
  | transaction {opener closer : Line} {body body' : List Tree} (h : Tree.InsertsAll l body body') :
      Tree.Inserts l (.transaction opener body closer) (.transaction opener body' closer)

/-- It is put before, between or behind the trees, or into one of them. -/
inductive Tree.InsertsAll (l : Line) : List Tree → List Tree → Prop where
  | here (ts : List Tree) : Tree.InsertsAll l ts (.debug l :: ts)
  | head {t t' : Tree} {ts : List Tree} (h : Tree.Inserts l t t') :
      Tree.InsertsAll l (t :: ts) (t' :: ts)
  | tail {t : Tree} {ts ts' : List Tree} (h : Tree.InsertsAll l ts ts') :
      Tree.InsertsAll l (t :: ts) (t :: ts')

inductive Branch.Inserts (l : Line) : Branch → Branch → Prop where
  | otherwise {opener closer : Line} {body body' : List Tree} (h : Tree.InsertsAll l body body') :
      Branch.Inserts l (.otherwise opener body closer) (.otherwise opener body' closer)
  | elseIfBody {opener : Line} {body body' : List Tree} {rest : Branch}
      (h : Tree.InsertsAll l body body') :
      Branch.Inserts l (.elseIf opener body rest) (.elseIf opener body' rest)
  | elseIfRest {opener : Line} {body : List Tree} {rest rest' : Branch}
      (h : Branch.Inserts l rest rest') :
      Branch.Inserts l (.elseIf opener body rest) (.elseIf opener body rest')

end

/-! ## Cuts -/

/-- A cut of the fragments of trees and of what follows them. It is before, in or behind the trees, or it is
behind the first line of what follows them. -/
theorem Tree.exists_insertsAll_append {l : Line} {ts : List Tree} {rest as bs : List Fragment}
    (hts : ∀ {as bs : List Fragment}, Tree.flattenAll ts = as ++ bs →
      ∃ ts', Tree.InsertsAll l ts ts' ∧ Tree.flattenAll ts' = as ++ l.directive .debug :: bs)
    (h : Tree.flattenAll ts ++ rest = as ++ bs) :
    (∃ ts', Tree.InsertsAll l ts ts' ∧
      Tree.flattenAll ts' ++ rest = as ++ l.directive .debug :: bs) ∨
    ∃ c cs, as = Tree.flattenAll ts ++ c :: cs ∧ rest = c :: (cs ++ bs) := by
  have hbody : ∀ {cs : List Fragment}, Tree.flattenAll ts = as ++ cs → bs = cs ++ rest →
      ∃ ts', Tree.InsertsAll l ts ts' ∧
        Tree.flattenAll ts' ++ rest = as ++ l.directive .debug :: bs := by
    rintro cs hcut rfl
    obtain ⟨ts', hinserts, hflatten⟩ := hts hcut
    exact ⟨ts', hinserts, by rw [hflatten, List.append_assoc, List.cons_append]⟩
  rcases List.append_eq_append_iff.1 h with ⟨_ | ⟨c, cs⟩, has, hrest⟩ | ⟨cs, hcut, hbs⟩
  · rw [List.append_nil] at has
    exact .inl (hbody (has.symm.trans (List.append_nil as).symm) hrest.symm)
  · exact .inr ⟨c, cs, has, hrest⟩
  · exact .inl (hbody hcut hbs)

mutual

/-- A cut within a tree. -/
theorem Tree.exists_inserts (l : Line) : (t : Tree) → {a b : Fragment} → {as bs : List Fragment} →
    t.flatten = a :: (as ++ b :: bs) →
    ∃ t', Tree.Inserts l t t' ∧ t'.flatten = a :: (as ++ l.directive .debug :: b :: bs)
  | .sql _, _, _, _, _, h | .debug _, _, _, _, _, h => by simp [Tree.flatten] at h
  | .chain opener body rest, a, b, as, bs, h => by
    obtain ⟨rfl, hcut⟩ := List.cons.inj h
    rcases Tree.exists_insertsAll_append (Tree.exists_insertsAll l body) hcut with
      ⟨body', hinserts, hflatten⟩ | ⟨c, cs, rfl, hrest⟩
    · exact ⟨_, .chainBody hinserts, by rw [Tree.flatten, hflatten]⟩
    · obtain ⟨rest', hinserts, hflatten⟩ := Branch.exists_inserts l rest hrest
      exact ⟨_, .chainRest hinserts, by simp [Tree.flatten, hflatten]⟩
  | .attempt transactional opener body middle handler closer, a, b, as, bs, h => by
    obtain ⟨rfl, hcut⟩ := List.cons.inj h
    rcases Tree.exists_insertsAll_append (Tree.exists_insertsAll l body) hcut with
      ⟨body', hinserts, hflatten⟩ | ⟨c, cs, rfl, hrest⟩
    · exact ⟨_, .attemptBody hinserts, by rw [Tree.flatten, hflatten]⟩
    · obtain ⟨rfl, hend⟩ := List.cons.inj hrest
      rcases Tree.exists_insertsAll_append (Tree.exists_insertsAll l handler) hend with
        ⟨handler', hinserts, hflatten⟩ | ⟨c, ds, rfl, hclose⟩
      · exact ⟨_, .handler hinserts, by simp [Tree.flatten, hflatten]⟩
      · simp at hclose
  | .transaction opener body closer, a, b, as, bs, h => by
    obtain ⟨rfl, hcut⟩ := List.cons.inj h
    rcases Tree.exists_insertsAll_append (Tree.exists_insertsAll l body) hcut with
      ⟨body', hinserts, hflatten⟩ | ⟨c, cs, rfl, hclose⟩
    · exact ⟨_, .transaction hinserts, by rw [Tree.flatten, hflatten]⟩
    · simp at hclose

/-- A cut anywhere in a list of trees. -/
theorem Tree.exists_insertsAll (l : Line) : (ts : List Tree) → {as bs : List Fragment} →
    Tree.flattenAll ts = as ++ bs →
    ∃ ts', Tree.InsertsAll l ts ts' ∧ Tree.flattenAll ts' = as ++ l.directive .debug :: bs
  | ts, [], bs, h => ⟨_, .here ts, by rw [Tree.flattenAll, h]; rfl⟩
  | [], a :: as, bs, h => by cases h
  | t :: ts, a :: as, bs, h => by
    rcases List.append_eq_append_iff.1 h with ⟨cs, has, hts⟩ | ⟨_ | ⟨c, cs⟩, ht, hbs⟩
    · obtain ⟨ts', hinserts, hflatten⟩ := Tree.exists_insertsAll l ts hts
      exact ⟨_, .tail hinserts, by simp [Tree.flattenAll, has, hflatten]⟩
    · -- right behind a tree is right before the others
      rw [List.append_nil] at ht
      exact ⟨_, .tail (.here ts), by simp [Tree.flattenAll, Tree.flatten, ht, hbs]⟩
    · obtain ⟨t', hinserts, hflatten⟩ := Tree.exists_inserts l t ht
      exact ⟨_, .head hinserts, by simp [Tree.flattenAll, hflatten, hbs]⟩

/-- A cut behind the first line of what follows a body. -/
theorem Branch.exists_inserts (l : Line) : (b : Branch) → {a c : Fragment} → {as cs : List Fragment} →
    b.flatten = a :: (as ++ c :: cs) →
    ∃ b', Branch.Inserts l b b' ∧ b'.flatten = a :: (as ++ l.directive .debug :: c :: cs)
  | .done _, _, _, _, _, h => by simp [Branch.flatten] at h
  | .otherwise opener body closer, a, c, as, cs, h => by
    obtain ⟨rfl, hcut⟩ := List.cons.inj h
    rcases Tree.exists_insertsAll_append (Tree.exists_insertsAll l body) hcut with
      ⟨body', hinserts, hflatten⟩ | ⟨d, ds, rfl, hclose⟩
    · exact ⟨_, .otherwise hinserts, by rw [Branch.flatten, hflatten]⟩
    · simp at hclose
  | .elseIf opener body rest, a, c, as, cs, h => by
    obtain ⟨rfl, hcut⟩ := List.cons.inj h
    rcases Tree.exists_insertsAll_append (Tree.exists_insertsAll l body) hcut with
      ⟨body', hinserts, hflatten⟩ | ⟨d, ds, rfl, hrest⟩
    · exact ⟨_, .elseIfBody hinserts, by rw [Branch.flatten, hflatten]⟩
    · obtain ⟨rest', hinserts, hflatten⟩ := Branch.exists_inserts l rest hrest
      exact ⟨_, .elseIfRest hinserts, by simp [Branch.flatten, hflatten]⟩

end

end SqlFlow
