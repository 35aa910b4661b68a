import GrammarLint.Grammar.Match
import GrammarLint.Proofs.Scan

/-!
# What an expression yields

`Yields` is the meaning of parsing expressions by itself: no fuel, no remembered
results, no record of failures.  An expression yields at most one result at a
cursor, a result takes characters from the front of the text, and only an
expression that is `nullable` can match without taking one.
-/

namespace GrammarLint.Grammar

open Text

/-- What an expression gives at a cursor: the trees of its match and the cursor
after it, or nothing.  A repetition ends with the text, with a failure of its
body, or with a match that takes nothing. -/
inductive Yields : Expr → Cursor → Option (List Tree × Cursor) → Prop where
  | literal {text : String} {cursor next : Cursor}
      (hexpect : cursor.expect? text.toList = some next) :
      Yields (.literal text) cursor (some ([.text text.toList], next))
  | noLiteral {text : String} {cursor : Cursor}
      (hexpect : cursor.expect? text.toList = none) :
      Yields (.literal text) cursor none
  | pattern {shape : Pattern} {cursor : Cursor} {chars rest : List Char}
      (hscan : shape.scan? cursor.rest = some (chars, rest)) :
      Yields (.pattern shape) cursor (some ([.text chars], cursor.past chars rest))
  | noPattern {shape : Pattern} {cursor : Cursor} (hscan : shape.scan? cursor.rest = none) :
      Yields (.pattern shape) cursor none
  | rule {rule : Rule} {cursor next : Cursor} {trees : List Tree}
      (hbody : Yields rule.body cursor (some (trees, next))) :
      Yields (.rule rule) cursor (some ([.node rule cursor.offset trees], next))
  | noRule {rule : Rule} {cursor : Cursor} (hbody : Yields rule.body cursor none) :
      Yields (.rule rule) cursor none
  | seq {first second : Expr} {cursor middle next : Cursor} {trees more : List Tree}
      (hfirst : Yields first cursor (some (trees, middle)))
      (hsecond : Yields second middle (some (more, next))) :
      Yields (.seq first second) cursor (some (trees ++ more, next))
  | noFirst {first second : Expr} {cursor : Cursor} (hfirst : Yields first cursor none) :
      Yields (.seq first second) cursor none
  | noSecond {first second : Expr} {cursor middle : Cursor} {trees : List Tree}
      (hfirst : Yields first cursor (some (trees, middle)))
      (hsecond : Yields second middle none) :
      Yields (.seq first second) cursor none
  | first {first second : Expr} {cursor : Cursor} {result : List Tree × Cursor}
      (hfirst : Yields first cursor (some result)) :
      Yields (.choice first second) cursor (some result)
  | second {first second : Expr} {cursor : Cursor} {result : Option (List Tree × Cursor)}
      (hfirst : Yields first cursor none) (hsecond : Yields second cursor result) :
      Yields (.choice first second) cursor result
  | optionalAtEnd {body : Expr} {cursor : Cursor} (hend : cursor.rest = []) :
      Yields (.optional body) cursor (some ([], cursor))
  | optionalSome {body : Expr} {cursor : Cursor} {result : List Tree × Cursor}
      (hend : cursor.rest ≠ []) (hbody : Yields body cursor (some result)) :
      Yields (.optional body) cursor (some result)
  | optionalNone {body : Expr} {cursor : Cursor} (hend : cursor.rest ≠ [])
      (hbody : Yields body cursor none) :
      Yields (.optional body) cursor (some ([], cursor))
  | manyAtEnd {body : Expr} {cursor : Cursor} (hend : cursor.rest = []) :
      Yields (.many body) cursor (some ([], cursor))
  | manyNone {body : Expr} {cursor : Cursor} (hend : cursor.rest ≠ [])
      (hbody : Yields body cursor none) :
      Yields (.many body) cursor (some ([], cursor))
  | manyLast {body : Expr} {cursor next : Cursor} {trees : List Tree} (hend : cursor.rest ≠ [])
      (hbody : Yields body cursor (some (trees, next))) (hstuck : next.offset = cursor.offset) :
      Yields (.many body) cursor (some (trees, next))
  | manyMore {body : Expr} {cursor middle next : Cursor} {trees more : List Tree}
      (hend : cursor.rest ≠ []) (hbody : Yields body cursor (some (trees, middle)))
      (hstuck : middle.offset ≠ cursor.offset)
      (hmore : Yields (.many body) middle (some (more, next))) :
      Yields (.many body) cursor (some (trees ++ more, next))
  | many1AtEnd {body : Expr} {cursor : Cursor} (hend : cursor.rest = []) :
      Yields (.many1 body) cursor none
  | many1None {body : Expr} {cursor : Cursor} (hend : cursor.rest ≠ [])
      (hbody : Yields body cursor none) :
      Yields (.many1 body) cursor none
  | many1Some {body : Expr} {cursor : Cursor} {one all : List Tree × Cursor}
      (hend : cursor.rest ≠ []) (hbody : Yields body cursor (some one))
      (hall : Yields (.many body) cursor (some all)) :
      Yields (.many1 body) cursor (some all)

theorem Rule.body_terminal (type : Terminal) : (Rule.terminal type).body = type.body := by
  rw [Rule.body]

namespace Yields

theorem unique {expr : Expr} {cursor : Cursor} {result other : Option (List Tree × Cursor)}
    (h : Yields expr cursor result) (h' : Yields expr cursor other) : result = other := by
  induction h generalizing other with
  | literal hexpect =>
      cases h' with
      | literal hexpect' => simp_all
      | noLiteral hexpect' => simp_all
  | noLiteral hexpect =>
      cases h' with
      | literal hexpect' => simp_all
      | noLiteral => rfl
  | pattern hscan =>
      cases h' with
      | pattern hscan' => simp_all
      | noPattern hscan' => simp_all
  | noPattern hscan =>
      cases h' with
      | pattern hscan' => simp_all
      | noPattern => rfl
  | rule _ ih =>
      cases h' with
      | rule hbody' =>
          cases ih hbody'
          rfl
      | noRule hbody' => cases ih hbody'
  | noRule _ ih =>
      cases h' with
      | rule hbody' => cases ih hbody'
      | noRule => rfl
  | seq _ _ ihFirst ihSecond =>
      cases h' with
      | seq hfirst' hsecond' =>
          cases ihFirst hfirst'
          cases ihSecond hsecond'
          rfl
      | noFirst hfirst' => cases ihFirst hfirst'
      | noSecond hfirst' hsecond' =>
          cases ihFirst hfirst'
          cases ihSecond hsecond'
  | noFirst _ ihFirst =>
      cases h' with
      | seq hfirst' _ => cases ihFirst hfirst'
      | noFirst => rfl
      | noSecond => rfl
  | noSecond _ _ ihFirst ihSecond =>
      cases h' with
      | seq hfirst' hsecond' =>
          cases ihFirst hfirst'
          cases ihSecond hsecond'
      | noFirst => rfl
      | noSecond => rfl
  | first _ ihFirst =>
      cases h' with
      | first hfirst' => exact ihFirst hfirst'
      | second hfirst' _ => cases ihFirst hfirst'
  | second _ _ ihFirst ihSecond =>
      cases h' with
      | first hfirst' => cases ihFirst hfirst'
      | second _ hsecond' => exact ihSecond hsecond'
  | optionalAtEnd hend =>
      cases h' with
      | optionalAtEnd => rfl
      | optionalSome hend' _ => exact absurd hend hend'
      | optionalNone => rfl
  | optionalSome hend _ ih =>
      cases h' with
      | optionalAtEnd hend' => exact absurd hend' hend
      | optionalSome _ hbody' => exact ih hbody'
      | optionalNone _ hbody' => cases ih hbody'
  | optionalNone hend _ ih =>
      cases h' with
      | optionalAtEnd => rfl
      | optionalSome _ hbody' => cases ih hbody'
      | optionalNone => rfl
  | manyAtEnd hend =>
      cases h' with
      | manyAtEnd => rfl
      | manyNone => rfl
      | manyLast hend' => exact absurd hend hend'
      | manyMore hend' => exact absurd hend hend'
  | manyNone hend _ ih =>
      cases h' with
      | manyAtEnd => rfl
      | manyNone => rfl
      | manyLast _ hbody' => cases ih hbody'
      | manyMore _ hbody' => cases ih hbody'
  | manyLast hend _ hstuck ih =>
      cases h' with
      | manyAtEnd hend' => exact absurd hend' hend
      | manyNone _ hbody' => cases ih hbody'
      | manyLast _ hbody' => exact ih hbody'
      | manyMore _ hbody' hstuck' =>
          cases ih hbody'
          exact absurd hstuck hstuck'
  | manyMore hend _ hstuck _ ihBody ihMore =>
      cases h' with
      | manyAtEnd hend' => exact absurd hend' hend
      | manyNone _ hbody' => cases ihBody hbody'
      | manyLast _ hbody' hstuck' =>
          cases ihBody hbody'
          exact absurd hstuck' hstuck
      | manyMore _ hbody' _ hmore' =>
          cases ihBody hbody'
          cases ihMore hmore'
          rfl
  | many1AtEnd hend =>
      cases h' with
      | many1AtEnd => rfl
      | many1None => rfl
      | many1Some hend' => exact absurd hend hend'
  | many1None hend _ ih =>
      cases h' with
      | many1AtEnd => rfl
      | many1None => rfl
      | many1Some _ hbody' => cases ih hbody'
  | many1Some hend _ _ ihBody ihAll =>
      cases h' with
      | many1AtEnd hend' => exact absurd hend' hend
      | many1None _ hbody' => cases ihBody hbody'
      | many1Some _ _ hall' => exact ihAll hall'

end Yields

/-! ## The characters of trees -/

namespace Tree

mutual

theorem charsBefore_eq (tail : List Char) :
    (tree : Tree) → tree.charsBefore tail = tree.charsBefore [] ++ tail
  | .text chars => by simp [charsBefore]
  | .node _ _ children => by
      simp only [charsBefore]
      exact allCharsBefore_eq tail children

theorem allCharsBefore_eq (tail : List Char) :
    (trees : List Tree) → allCharsBefore tail trees = allCharsBefore [] trees ++ tail
  | [] => rfl
  | tree :: trees => by
      simp only [allCharsBefore]
      rw [charsBefore_eq (allCharsBefore tail trees) tree,
        charsBefore_eq (allCharsBefore [] trees) tree, allCharsBefore_eq tail trees,
        List.append_assoc]

end

theorem allCharsBefore_append (tail : List Char) (trees more : List Tree) :
    allCharsBefore tail (trees ++ more) = allCharsBefore (allCharsBefore tail more) trees := by
  induction trees with
  | nil => rfl
  | cons tree trees ih => simp only [List.cons_append, allCharsBefore, ih]

def allChars (trees : List Tree) : List Char :=
  allCharsBefore [] trees

@[simp] theorem allChars_nil : allChars [] = [] := rfl

@[simp] theorem allChars_text (chars : List Char) : allChars [.text chars] = chars := by
  simp [allChars, allCharsBefore, charsBefore]

@[simp] theorem allChars_node (rule : Rule) (offset : Nat) (children : List Tree) :
    allChars [.node rule offset children] = allChars children := by
  simp [allChars, allCharsBefore, charsBefore]

@[simp] theorem allChars_append (trees more : List Tree) :
    allChars (trees ++ more) = allChars trees ++ allChars more := by
  rw [allChars, allCharsBefore_append, allCharsBefore_eq]
  rfl

end Tree

/-! ## Moving through the text -/

/-- The second cursor is reached from the first by taking the characters. -/
structure Moves (cursor : Cursor) (taken : List Char) (next : Cursor) : Prop where
  rest_eq : cursor.rest = taken ++ next.rest
  offset_eq : next.offset = cursor.offset + taken.length

namespace Moves

theorem refl (cursor : Cursor) : Moves cursor [] cursor :=
  ⟨rfl, rfl⟩

theorem trans {cursor middle next : Cursor} {first second : List Char}
    (hfirst : Moves cursor first middle) (hsecond : Moves middle second next) :
    Moves cursor (first ++ second) next := by
  constructor
  · rw [hfirst.rest_eq, hsecond.rest_eq, List.append_assoc]
  · rw [hsecond.offset_eq, hfirst.offset_eq, List.length_append, Nat.add_assoc]

theorem past {cursor : Cursor} {taken rest : List Char} (hsplit : taken ++ rest = cursor.rest) :
    Moves cursor taken (cursor.past taken rest) :=
  ⟨hsplit.symm, rfl⟩

theorem length_eq {cursor next : Cursor} {taken : List Char} (h : Moves cursor taken next) :
    cursor.rest.length = taken.length + next.rest.length := by
  rw [h.rest_eq, List.length_append]

theorem expect? {cursor next : Cursor} {word : List Char}
    (h : cursor.expect? word = some next) : Moves cursor word next := by
  simp only [Cursor.expect?, List.isPrefixOf_iff_prefix, Option.ite_none_right_eq_some,
    Option.some.injEq] at h
  obtain ⟨hword, rfl⟩ := h
  exact past (List.prefix_iff_eq_append.1 hword)

end Moves

theorem Yields.moves {expr : Expr} {cursor next : Cursor} {trees : List Tree}
    (h : Yields expr cursor (some (trees, next))) : Moves cursor (Tree.allChars trees) next := by
  generalize hresult : some (trees, next) = result at h
  induction h generalizing trees next with
  | literal hexpect =>
      cases hresult
      simpa using Moves.expect? hexpect
  | pattern hscan =>
      cases hresult
      simpa using Moves.past (Pattern.scan?_split hscan)
  | rule _ ih =>
      cases hresult
      simpa using ih rfl
  | seq _ _ ihFirst ihSecond =>
      cases hresult
      simpa using (ihFirst rfl).trans (ihSecond rfl)
  | first _ ih => exact ih hresult
  | second _ _ _ ih => exact ih hresult
  | optionalAtEnd =>
      cases hresult
      exact .refl _
  | optionalSome _ _ ih => exact ih hresult
  | optionalNone =>
      cases hresult
      exact .refl _
  | manyAtEnd =>
      cases hresult
      exact .refl _
  | manyNone =>
      cases hresult
      exact .refl _
  | manyLast _ _ _ ih => exact ih hresult
  | manyMore _ _ _ _ ihBody ihMore =>
      cases hresult
      simpa using (ihBody rfl).trans (ihMore rfl)
  | many1Some _ _ _ _ ihAll => exact ihAll hresult
  | noLiteral | noPattern | noRule | noFirst | noSecond | many1AtEnd | many1None => cases hresult

/-! ## Matches that take nothing -/

def Rule.nullable : Rule → Bool
  | .trivia => true
  | .altList => true
  | .alternative => true
  | _ => false

def Expr.nullable : Expr → Bool
  | .literal text => text.toList.isEmpty
  | .pattern shape => shape.nullable
  | .rule name => name.nullable
  | .seq first second => first.nullable && second.nullable
  | .choice first second => first.nullable || second.nullable
  | .optional _ => true
  | .many _ => true
  | .many1 body => body.nullable

theorem Rule.nullable_of_body {rule : Rule} (h : rule.body.nullable = true) :
    rule.nullable = true := by
  revert h
  cases rule with
  | terminal type =>
      cases type with
      | keyword word => cases word <;> decide
      | mark sign => cases sign <;> decide
      | _ => decide
  | _ => decide

theorem Yields.nullable {expr : Expr} {cursor next : Cursor} {trees : List Tree}
    (h : Yields expr cursor (some (trees, next))) (hnone : Tree.allChars trees = []) :
    expr.nullable = true := by
  generalize hresult : some (trees, next) = result at h
  induction h generalizing trees next with
  | literal =>
      cases hresult
      simpa [Expr.nullable] using hnone
  | pattern hscan =>
      cases hresult
      simp only [Tree.allChars_text] at hnone
      subst hnone
      exact Pattern.nullable_of_scan?_nil hscan
  | rule _ ih =>
      cases hresult
      exact Rule.nullable_of_body (ih (by simpa using hnone) rfl)
  | seq _ _ ihFirst ihSecond =>
      cases hresult
      simp only [Tree.allChars_append, List.append_eq_nil_iff] at hnone
      simp [Expr.nullable, ihFirst hnone.1 rfl, ihSecond hnone.2 rfl]
  | first _ ih => simp [Expr.nullable, ih hnone hresult]
  | second _ _ _ ih => simp [Expr.nullable, ih hnone hresult]
  | many1Some hend hbody hall ihBody =>
      cases hresult
      cases hall with
      | manyAtEnd hend' => exact absurd hend' hend
      | manyNone _ hbody' => cases hbody.unique hbody'
      | manyLast _ hbody' =>
          cases hbody.unique hbody'
          exact ihBody hnone rfl
      | manyMore _ hbody' =>
          cases hbody.unique hbody'
          simp only [Tree.allChars_append, List.append_eq_nil_iff] at hnone
          exact ihBody hnone.1 rfl
  | optionalAtEnd | optionalSome | optionalNone | manyAtEnd | manyNone | manyLast | manyMore => rfl
  | noLiteral | noPattern | noRule | noFirst | noSecond | many1AtEnd | many1None => cases hresult

end GrammarLint.Grammar
