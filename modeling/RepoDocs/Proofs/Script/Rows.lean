import RepoDocs.Proofs.Grammar.Rows
import RepoDocs.Script.Statements

/-! Rows of the syntax trees of scripts.  Each terminal is a leaf over characters of the text, so all nodes
of a file begin and end in rows of the file. -/

namespace RepoDocs.Script

open Grammar

theorem lastRow_skipTrivia (c : Cursor) : (skipTrivia c).lastRow = c.lastRow :=
  Cursor.lastRow_advance _ c

theorem within_leafOf (kind : String → Kind) (n : Nat) {c : Cursor} {last : Nat}
    (h : c.lastRow = last) : Found.Within last (leafOf kind n c) := by
  have ends : (c.advance n).lastRow = last := (Cursor.lastRow_advance n c).trans h
  refine ⟨List.forall_mem_singleton.2 (Node.within_iff.2 ⟨?_, ?_, nofun⟩), ends⟩
  · exact h ▸ c.row_le_lastRow
  · exact ends ▸ (c.advance n).row_le_lastRow

theorem lastRow_of_place? {e : LineEnd} {c c' : Cursor} (h : e.place? c = some c') :
    c'.lastRow = c.lastRow := by
  induction c using LineEnd.place?.induct (e := e) with
  | case1 c holds =>
    rw [LineEnd.place?, if_pos holds] at h
    cases h
    rfl
  | case2 c holds none =>
    rw [LineEnd.place?, if_neg holds] at h
    split at h
    · cases h
    · rename_i length
      cases none.symm.trans length
  | case3 c holds n length ih =>
    rw [LineEnd.place?, if_neg holds] at h
    split at h
    · cases h
    · rename_i n' length'
      obtain rfl := Nat.succ.inj (length.symm.trans length')
      exact (ih h).trans (Cursor.lastRow_advance _ c)

/-! ### Terminals -/

/-- A reader that finds nothing but a leaf behind blanks and comments. -/
theorem stays_of_leaf {reader : Cursor → Option Found}
    (h : ∀ c, ∀ found ∈ reader c, ∃ kind n, found = leafOf kind n (skipTrivia c)) :
    (Pattern.read reader : Syn).Stays := by
  intro c found hfound
  obtain ⟨kind, n, rfl⟩ := h c found hfound
  exact within_leafOf kind n (lastRow_skipTrivia c)

@[simp] theorem stays_immediate (kind : Kind) (length : List Char → Nat) :
    (immediate kind length).Stays := by
  intro c found h
  dsimp only at h
  split at h
  · cases h
  · cases h
    exact within_leafOf _ _ rfl

@[simp] theorem stays_immediateMark (t : String) : (immediateMark t).Stays := by
  intro c found h
  dsimp only at h
  split at h
  · cases h
    exact within_leafOf _ _ rfl
  · cases h

@[simp] theorem stays_lexeme (kind : Kind) (length : List Char → Nat) : (lexeme kind length).Stays := by
  refine stays_of_leaf fun c found h => ?_
  dsimp only at h
  split at h
  · cases h
  · cases h
    exact ⟨_, _, rfl⟩

@[simp] theorem stays_mark (t : String) : (mark t).Stays := by
  refine stays_of_leaf fun c found h => ?_
  dsimp only at h
  split at h
  · cases h
    exact ⟨_, _, rfl⟩
  · cases h

@[simp] theorem stays_operator (ts : List String) : (operator ts).Stays := by
  refine stays_of_leaf fun c found h => ?_
  dsimp only at h
  split at h
  · split at h
    · cases h
      exact ⟨_, _, rfl⟩
    · cases h
  · cases h

@[simp] theorem stays_keyword (ws : List String) : (keyword ws).Stays := by
  refine stays_of_leaf fun c found h => ?_
  dsimp only at h
  split at h
  · cases h
  · split at h
    · cases h
      exact ⟨_, _, rfl⟩
    · cases h

@[simp] theorem stays_nameBut (kind : Kind) (reserved : List String) : (nameBut kind reserved).Stays := by
  refine stays_of_leaf fun c found h => ?_
  dsimp only at h
  split at h
  · cases h
  · split at h
    · cases h
    · cases h
      exact ⟨_, _, rfl⟩

@[simp] theorem stays_lineEnd (e : LineEnd) : (lineEnd e).Stays := by
  intro c found h
  obtain ⟨c', place, rfl⟩ := Option.map_eq_some_iff.1 h
  exact within_leafOf _ _ (lastRow_of_place? place)

@[simp] theorem stays_questionMark (d : Dialect) : (Expressions.questionMark d).Stays := by
  refine stays_of_leaf fun c found h => ?_
  obtain ⟨-, h⟩ := Option.ite_none_right_eq_some.1 h
  cases h
  exact ⟨_, _, rfl⟩

@[simp] theorem stays_markupComment : Statements.markupComment.Stays := by
  intro c found h
  dsimp only at h
  split at h
  · cases h
  · cases h
    exact ⟨nofun, (Cursor.lastRow_advance _ _).trans (lastRow_skipTrivia c)⟩

/-! ### Patterns of several rules -/

section Shared

variable (d : Dialect) (p : Place) (ends : Bool)

@[simp] theorem stays_word (w : String) : (word w).Stays := stays_keyword [w]

@[simp] theorem stays_anyName : anyName.Stays := stays_nameBut _ _

@[simp] theorem stays_anyPropertyName : anyPropertyName.Stays := stays_nameBut _ _

@[simp] theorem stays_privateName : privateName.Stays := stays_lexeme _ _

@[simp] theorem stays_quoted : quoted.Stays := stays_lexeme _ _

@[simp] theorem stays_number : number.Stays := stays_lexeme _ _

@[simp] theorem stays_openBrace : openBrace.Stays := stays_mark _

@[simp] theorem stays_closeBrace : closeBrace.Stays := stays_mark _

@[simp] theorem stays_goesOn : (goesOn d p).Stays := by simp [goesOn]

@[simp] theorem stays_semicolon : (semicolon d).Stays := by simp [semicolon]

@[simp] theorem stays_bareSemicolon : (bareSemicolon d).Stays := by simp [bareSemicolon]

@[simp] theorem stays_bodyEnd : (bodyEnd d).Stays := by simp [bodyEnd]

@[simp] theorem stays_sparse {item : Syn} : (sparse item).Stays ↔ item.Stays := by simp [sparse]

namespace Types

@[simp] theorem stays_goesOn : (goesOn ends).Stays := by simp [goesOn]

@[simp] theorem stays_typed : (typed ends).Stays := trivial

@[simp] theorem stays_ascription : (ascription ends).Stays := by simp [ascription]

@[simp] theorem stays_typeName : typeName.Stays := stays_nameBut _ _

@[simp] theorem stays_dotted {first : Syn} : (dotted first).Stays ↔ first.Stays := by simp [dotted]

@[simp] theorem stays_returned : (returned ends).Stays := by simp [returned]

@[simp] theorem stays_modifier (ws : List String) : (modifier ws).Stays := by simp [modifier, nameEnds]

@[simp] theorem stays_methodSignature : (methodSignature ends).Stays := by simp [methodSignature]

@[simp] theorem stays_indexSignature : (indexSignature ends).Stays := by simp [indexSignature]

@[simp] theorem stays_member : member.Stays := by simp [member]

end Types

namespace Expressions

@[simp] theorem stays_expression : (expression p).Stays := trivial

@[simp] theorem stays_expressions : (expressions p).Stays := trivial

@[simp] theorem stays_operandStart : operandStart.Stays := by simp [operandStart]

@[simp] theorem stays_target : target.Stays := by simp [target]

@[simp] theorem stays_restPattern : restPattern.Stays := by simp [restPattern]

@[simp] theorem stays_defaulted : defaulted.Stays := by simp [defaulted]

@[simp] theorem stays_parameter : (parameter d).Stays := by simp [parameter]

@[simp] theorem stays_signature : (signature d ends).Stays := by simp [signature]

@[simp] theorem stays_modifier (ws : List String) : (modifier d ws).Stays := by
  simp [modifier, Types.nameEnds]

@[simp] theorem stays_classRest (named : Bool) : (classRest d named).Stays := by
  simp [classRest, heritage]

@[simp] theorem stays_markupName : markupName.Stays := by simp [markupName]

@[simp] theorem stays_elementName : elementName.Stays := by simp [elementName]

@[simp] theorem stays_markupExpression : markupExpression.Stays := by simp [markupExpression]

@[simp] theorem stays_markupAttribute : markupAttribute.Stays := by simp [markupAttribute]

end Expressions

namespace Statements

@[simp] theorem stays_statement : statement.Stays := trivial

@[simp] theorem stays_condition : condition.Stays := trivial

@[simp] theorem stays_binding : binding.Stays := by simp [binding]

@[simp] theorem stays_lexicalDeclaration : (lexicalDeclaration d).Stays := by
  simp [lexicalDeclaration, lexicalWord, declarators]

@[simp] theorem stays_variableDeclaration : (variableDeclaration d).Stays := by
  simp [variableDeclaration, declarators]

@[simp] theorem stays_functionDeclaration : (functionDeclaration d).Stays := by
  simp [functionDeclaration]

@[simp] theorem stays_classDeclaration : (classDeclaration d).Stays := by simp [classDeclaration]

@[simp] theorem stays_enumDeclaration : enumDeclaration.Stays := by simp [enumDeclaration]

@[simp] theorem stays_interfaceDeclaration : interfaceDeclaration.Stays := by
  simp [interfaceDeclaration]

@[simp] theorem stays_typeAlias : (typeAlias d).Stays := by simp [typeAlias]

@[simp] theorem stays_importAlias : (importAlias d).Stays := by simp [importAlias]

@[simp] theorem stays_ambientDeclaration : (ambientDeclaration d).Stays := by
  simp [ambientDeclaration]

@[simp] theorem stays_moduleDeclaration : (moduleDeclaration d).Stays := by simp [moduleDeclaration]

@[simp] theorem stays_exportedName : exportedName.Stays := by simp [exportedName]

@[simp] theorem stays_typeOnly : (typeOnly d).Stays := by simp [typeOnly]

@[simp] theorem stays_fromClause : fromClause.Stays := by simp [fromClause]

@[simp] theorem stays_attributes : attributes.Stays := by simp [attributes]

@[simp] theorem stays_importStatement : (importStatement d).Stays := by
  simp [importStatement, importClause, namedImports]

@[simp] theorem stays_exportClause : (exportClause d).Stays := by simp [exportClause]

@[simp] theorem stays_exportStatement : (exportStatement d).Stays := by simp [exportStatement]

@[simp] theorem stays_forStatement : (forStatement d).Stays := by simp [forStatement, loopHeader]

@[simp] theorem stays_switchBody : switchBody.Stays := by simp [switchBody]

@[simp] theorem stays_tryStatement : (tryStatement d).Stays := by simp [tryStatement]

end Statements

end Shared

/-! ### Rules -/

section Rules

variable (d : Dialect) (p : Place) (ends : Bool)

theorem stays_of_here {holds : Cursor → Prop} [DecidablePred holds] :
    Stays fun c => if holds c then some ([], c) else none := by
  intro c found h
  obtain ⟨-, h⟩ := Option.ite_none_right_eq_some.1 h
  cases h
  exact ⟨nofun, rfl⟩

theorem rules_stay (r : Rule) : (rules d r).Stays := by
  cases r with
  | program => simp [rules, Statements.program]
  | statement => simp [rules, Statements.anyStatement]
  | block => simp [rules, Statements.block]
  | expressions => simp [rules, Expressions.list]
  | expression => simp [rules, Expressions.whole]
  | combined => simp [rules, Expressions.combined]
  | operand => simp [rules, Expressions.operand]
  | assignment => simp [rules, Expressions.assignment]
  | postfixed => simp [rules, Expressions.postfixed, stays_of_here]
  | primary => simp [rules, Expressions.primary, Expressions.primary.nameLiteral]
  | arrow => simp [rules, Expressions.arrow]
  | newExpression => simp [rules, Expressions.newExpression]
  | parenthesized => simp [rules, Expressions.parenthesized]
  | arguments => simp [rules, Expressions.arguments]
  | object => simp [rules, Expressions.object]
  | array => simp [rules, Expressions.array]
  | template => simp [rules, Expressions.template]
  | pattern => simp [rules, Expressions.pattern]
  | objectPattern => simp [rules, Expressions.objectPattern]
  | arrayPattern => simp [rules, Expressions.arrayPattern]
  | parameters => simp [rules, Expressions.parameters]
  | signature => simp [rules]
  | functionExpression => simp [rules, Expressions.functionExpression]
  | classExpression => simp [rules, Expressions.classExpression]
  | classBody => simp [rules, Expressions.classBody, Expressions.staticBlock]
  | method => simp [rules, Expressions.method]
  | propertyName => simp [rules, Expressions.propertyName]
  | decorator => simp [rules, Expressions.decorator]
  | element => simp [rules, Expressions.element]
  | typed => simp [rules, Types.type]
  | typeOperand => simp [rules, Types.operand, Types.functionType]
  | typePrimary => simp [rules, Types.primary, Types.query, Types.tupleMember]
  | typeArguments => simp [rules, Types.arguments]
  | typeParameters => simp [rules, Types.parameters]
  | objectType => simp [rules, Types.object]
  | returnType => simp [rules, Types.returnType]
  | declaration => simp [rules, Statements.declaration]
  | variableDeclarator => simp [rules, Statements.declarator]

theorem within_treeOf {last : Nat} {a : Grammar.Attempt} (within : a.Within last) :
    (treeOf a).Within last := by
  unfold treeOf
  split
  · rename_i nodes c found
    have hnodes := (within.found (nodes, c) found).1
    split
    · exact Node.within_spanning _ (Nat.zero_le _) hnodes
    · -- The error node behind the others is in the row where the reader stopped.
      refine Node.within_spanning _ (Nat.zero_le _) fun n hn => ?_
      rcases List.mem_append.1 hn with hn | hn
      · exact hnodes n hn
      · rw [List.mem_singleton.1 hn]
        exact Node.within_iff.2 ⟨within.furthest, within.furthest, nofun⟩
  · exact Node.within_iff.2 ⟨Nat.zero_le _, Nat.zero_le _, nofun⟩

/-- The nodes of a file lie in rows of the file. -/
theorem within_parse (source : String) : (parse d source).Within (source.toList.count '\n') :=
  within_treeOf (Grammar.within_parse (rules_stay d) lastRow_skipTrivia .program source.toList)

end Rules

end RepoDocs.Script
