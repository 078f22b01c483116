import DataBinding.Proofs.Grammar.Endings
import DataBinding.Proofs.Token.Places

/-!
# Places of faults

A reader raises a fault at a token that it has come to, or passes on the fault that it meets in place of a
token. Both have their places in the text, and so has every fault of an expression.
-/
namespace DataBinding.Grammar
open Text

variable {α β : Type} {text : List Char}

/-- The current token and all that follows have their places in the text. -/
structure Cursor.Within (text : List Char) (c : Cursor) : Prop where
  token : c.token.Within text
  rest : c.rest.Within text

theorem steady_within (text : List Char) : Steady (Cursor.Within text) where
  pass _ _ _ hc h := ⟨(hc.rest.next h).1, (hc.rest.next h).2⟩
  record _ _ hc := ⟨hc.token, hc.rest⟩

theorem within_of_ofText {c : Cursor} (h : Cursor.ofText text = .ok c) : c.Within text := by
  obtain ⟨token, rest, hnext, rfl⟩ := ofText_eq_ok.mp h
  obtain ⟨htoken, hrest⟩ := (Lexer.tokens_within text).next hnext
  exact ⟨htoken, hrest⟩

/-- A fault that the reader raises has its place in the text where all tokens have theirs in it. -/
def Locates (text : List Char) (m : ParseM α) : Prop :=
  ∀ c fault c', c.Within text → m.run.run c = (.error fault, c') → fault.Within text

section Locates

theorem locates_pure (a : α) : Locates text (pure a : ParseM α) := by
  intro c fault c' _ h
  cases h

theorem locates_throw {fault : Fault} (h : fault.Within text) : Locates text (throw fault : ParseM α) := by
  intro c raised c' _ hrun
  cases hrun
  exact h

theorem Locates.bind {m : ParseM α} {f : α → ParseM β} (hm : Locates text m) (hk : Keeps (Cursor.Within text) m)
    (hf : ∀ a, Locates text (f a)) : Locates text (m >>= f) := by
  intro c fault c'' hc h
  rw [run_bind] at h
  cases hrun : m.run.run c with
  | mk result c' =>
    rw [hrun] at h
    cases result with
    | error raised =>
      cases h
      exact hm c fault c'' hc hrun
    | ok a => exact hf a c' fault c'' (hk c a c' hc hrun) h

theorem Locates.map {m : ParseM α} {f : α → β} (hm : Locates text m) (hk : Keeps (Cursor.Within text) m) :
    Locates text (f <$> m) := by
  rw [map_eq_pure_bind]
  exact hm.bind hk fun a => locates_pure (f a)

theorem locates_current_bind {f : Token → ParseM β}
    (hf : ∀ token : Token, (∀ cause, (token.fault cause).Within text) → Locates text (f token)) :
    Locates text (current >>= f) :=
  fun c fault c' hc h => hf c.token hc.token.fault c fault c' hc h

theorem locates_remaining_bind {f : Nat → ParseM β} (hf : ∀ n, Locates text (f n)) :
    Locates text (remaining >>= f) :=
  fun c fault c' hc h => hf c.remaining c fault c' hc h

theorem locates_get_bind {f : Cursor → ParseM β} (hf : ∀ c, c.Within text → Locates text (f c)) :
    Locates text (get >>= f) :=
  fun c fault c' hc h => hf c hc c fault c' hc h

theorem locates_set_bind {c : Cursor} (hc : c.Within text) {f : Unit → ParseM β} (hf : Locates text (f ())) :
    Locates text (set c >>= f) :=
  fun _ fault c' _ h => hf c fault c' hc h

theorem locates_advance : Locates text advance := by
  intro c fault c' hc h
  rw [run_advance] at h
  split at h
  · cases h
  · rename_i raised rest hnext
    cases h
    exact hc.rest.next_fault hnext

theorem locates_advance_bind {f : Unit → ParseM β} (hf : Locates text (f ())) : Locates text (advance >>= f) :=
  locates_advance.bind (keeps_advance (steady_within text)) fun _ => hf

theorem locates_expect (word context : String) : Locates text (expect word context) := by
  unfold expect
  refine locates_current_bind fun token htoken => ?_
  split
  · exact locates_advance
  · exact locates_throw (htoken _)

theorem locates_expect_bind {word context : String} {f : Unit → ParseM β} (hf : Locates text (f ())) :
    Locates text (expect word context >>= f) :=
  (locates_expect word context).bind (keeps_expect (steady_within text) word context) fun _ => hf

theorem locates_resolveType (s : Setting) (name : String) : Locates text (resolveType s name) := by
  unfold resolveType
  split
  · exact locates_pure _
  · intro c fault c' _ h
    cases h

theorem locates_literal (e : Expr) : Locates text (literal e) := locates_advance_bind (locates_pure e)

/-! ## Type names -/

theorem locates_settle (start : Cursor) (found : Option (TypeRef × Cursor)) :
    Locates text (settle start found) := by
  cases found <;>
  · intro c fault c' _ h
    cases h

theorem locates_dottedTypeName (s : Setting) (start : Cursor) (bound : Nat) (name : String)
    (found : Option (TypeRef × Cursor)) : Locates text (dottedTypeName s start bound name found) := by
  induction bound generalizing name found with
  | zero => exact locates_settle start found
  | succ bound ih =>
    unfold dottedTypeName
    refine locates_current_bind fun token _ => ?_
    split
    · exact locates_settle start found
    · refine locates_advance_bind (locates_current_bind fun part _ => ?_)
      split
      · exact locates_settle start found
      · refine locates_advance_bind ?_
        refine (locates_resolveType s _).bind (keeps_resolveType (steady_within text) s _) fun resolved => ?_
        split
        · exact locates_get_bind fun c _ => ih _ _
        · exact ih _ _

theorem locates_labelledTypeName (s : Setting) (start : Cursor) (label : String) :
    Locates text (labelledTypeName s start label) := by
  unfold labelledTypeName
  refine locates_current_bind fun part _ => ?_
  split
  · exact locates_settle start none
  · refine locates_advance_bind ?_
    refine (locates_resolveType s _).bind (keeps_resolveType (steady_within text) s _) fun resolved => ?_
    split
    · exact locates_pure _
    · exact locates_settle start none

theorem locates_typeName? (s : Setting) : Locates text (typeName? s) := by
  unfold typeName?
  refine locates_get_bind fun start _ => ?_
  split
  · exact locates_pure _
  · refine locates_advance_bind (locates_current_bind fun token _ => ?_)
    split
    · exact locates_advance_bind (locates_labelledTypeName s start _)
    · refine (locates_resolveType s _).bind (keeps_resolveType (steady_within text) s _) fun resolved => ?_
      split
      · exact locates_remaining_bind fun bound => locates_get_bind fun c _ => locates_dottedTypeName s start _ _ _
      · exact locates_remaining_bind fun bound => locates_dottedTypeName s start _ _ _

theorem locates_typeName (s : Setting) : Locates text (typeName s) := by
  unfold typeName
  refine locates_current_bind fun token htoken => ?_
  refine (locates_typeName? s).bind (keeps_typeName? (steady_within text) s) fun found => ?_
  split
  · exact locates_pure _
  · exact locates_throw (htoken _)

theorem locates_typeOperand (s : Setting) (keyword : String) : Locates text (typeOperand s keyword) := by
  refine locates_expect_bind ?_
  refine (locates_typeName s).bind (keeps_typeName (steady_within text) s) fun type => ?_
  exact locates_expect_bind (locates_pure type)

theorem locates_castType? (s : Setting) : Locates text (castType? s) := by
  unfold castType?
  refine locates_get_bind fun start _ => locates_advance_bind ?_
  refine (locates_typeName? s).bind (keeps_typeName? (steady_within text) s) fun found => ?_
  split
  · exact locates_settle start none
  · refine locates_current_bind fun token _ => ?_
    split
    · exact locates_settle start none
    · refine locates_advance_bind (locates_current_bind fun token _ => ?_)
      split
      · exact locates_pure _
      · exact locates_settle start none

end Locates

/-- The readers of nested expressions raise faults with places in the text. -/
structure Nested.Locates (text : List Char) (nested : Nested) : Prop where
  keeps : nested.Keeps (Cursor.Within text)
  expression : Grammar.Locates text nested.expression
  coalesced : Grammar.Locates text nested.coalesced
  operand : Grammar.Locates text nested.operand

section Readers

variable {nested : Nested} (hn : nested.Locates text)
include hn

/-! ## Accesses -/

theorem locates_moreArguments (bound : Nat) : Locates text (moreArguments nested bound) := by
  induction bound with
  | zero => exact locates_pure _
  | succ bound ih =>
    unfold moreArguments
    refine locates_current_bind fun token _ => ?_
    split
    · refine locates_advance_bind (hn.expression.bind hn.keeps.expression fun e => ?_)
      exact ih.bind (keeps_moreArguments (steady_within text) hn.keeps bound) fun es => locates_pure _
    · exact locates_pure _

theorem locates_arguments (close : String) : Locates text (arguments nested close) := by
  unfold arguments
  refine locates_current_bind fun token _ => ?_
  split
  · exact locates_expect_bind (locates_pure _)
  · refine hn.expression.bind hn.keeps.expression fun e => locates_remaining_bind fun bound => ?_
    refine (locates_moreArguments hn bound).bind
      (keeps_moreArguments (steady_within text) hn.keeps bound) fun es => ?_
    exact locates_expect_bind (locates_pure _)

theorem locates_elementAccess (s : Setting) (target : Expr) (marker : Option Marker) :
    Locates text (elementAccess s nested target marker) := by
  unfold elementAccess
  refine locates_current_bind fun token htoken => locates_expect_bind ?_
  refine (locates_arguments hn _).bind (keeps_arguments (steady_within text) hn.keeps _) fun args => ?_
  split
  · exact locates_throw (htoken _)
  · split
    · exact locates_pure _
    · exact locates_throw (htoken _)

theorem locates_callAccess (s : Setting) (target : Expr) {name : Token}
    (hname : ∀ cause, (name.fault cause).Within text) (nullSafe : Bool) :
    Locates text (callAccess s nested target name nullSafe) := by
  unfold callAccess
  refine locates_expect_bind ?_
  refine (locates_arguments hn _).bind (keeps_arguments (steady_within text) hn.keeps _) fun args => ?_
  split
  · exact locates_pure _
  · split
    · exact locates_throw (hname _)
    · exact locates_throw (hname _)

omit hn in
theorem locates_memberAccess (s : Setting) (target : Expr) {name : Token}
    (hname : ∀ cause, (name.fault cause).Within text) (marker : Option Marker) (nullSafe : Bool) :
    Locates text (memberAccess s target name marker nullSafe) := by
  unfold memberAccess
  split
  · exact locates_pure _
  · exact locates_throw (hname _)

theorem locates_access? (s : Setting) (target : Expr) : Locates text (access? s nested target) := by
  have helement (marker : Option Marker) : Locates text (some <$> elementAccess s nested target marker) :=
    (locates_elementAccess hn s target marker).map
      (keeps_elementAccess (steady_within text) hn.keeps s target marker)
  unfold access?
  refine locates_current_bind fun sign _ => ?_
  split
  · exact helement none
  · split
    · exact locates_pure _
    · refine locates_advance_bind (locates_current_bind fun name hname => ?_)
      split
      · exact helement _
      · split
        · exact locates_throw (hname _)
        · refine locates_advance_bind (locates_current_bind fun token _ => ?_)
          split
          · exact (locates_callAccess hn s target hname _).map
              (keeps_callAccess (steady_within text) hn.keeps s target name _)
          · exact (locates_memberAccess s target hname _ _).map (keeps_memberAccess s target name _ _)

theorem locates_accesses (s : Setting) (bound : Nat) (target : Expr) :
    Locates text (accesses s nested bound target) := by
  induction bound generalizing target with
  | zero => exact locates_pure _
  | succ bound ih =>
    unfold accesses
    refine (locates_access? hn s target).bind (keeps_access? (steady_within text) hn.keeps s target) fun found => ?_
    split
    · exact locates_pure _
    · exact ih _

/-! ## Primary expressions -/

theorem locates_rootAccess? (s : Setting) : Locates text (rootAccess? s nested) := by
  unfold rootAccess?
  refine locates_get_bind fun start hstart => locates_advance_bind (locates_current_bind fun behind _ => ?_)
  split
  · split
    · exact locates_set_bind hstart (locates_pure _)
    · exact (locates_callAccess hn s _ hstart.token.fault _).map
        (keeps_callAccess (steady_within text) hn.keeps s _ _ _)
  · split
    · exact locates_set_bind hstart (locates_pure _)
    · split
      · exact locates_pure _
      · exact locates_set_bind hstart (locates_pure _)

theorem locates_reference (s : Setting) : Locates text (reference s nested) := by
  unfold reference
  refine locates_current_bind fun name hname => ?_
  refine (locates_rootAccess? hn s).bind (keeps_rootAccess? (steady_within text) hn.keeps s) fun found => ?_
  split
  · exact locates_pure _
  · refine (locates_typeName? s).bind (keeps_typeName? (steady_within text) s) fun type => ?_
    split
    · exact locates_pure _
    · split
      · exact locates_literal _
      · exact locates_throw (hname _)

theorem locates_named (s : Setting) : Locates text (named s nested) := by
  have hoperand (keyword : String) (f : TypeRef → Expr) :
      Locates text (do return f (← typeOperand s keyword)) :=
    (locates_typeOperand s keyword).bind (keeps_typeOperand (steady_within text) s keyword) fun _ => locates_pure _
  unfold named
  refine locates_current_bind fun token _ => ?_
  split
  · exact locates_literal _
  · exact locates_literal _
  · exact locates_literal _
  · exact locates_literal _
  · exact locates_advance_bind (hoperand _ _)
  · exact locates_advance_bind (hoperand _ _)
  · refine locates_advance_bind ?_
    refine (locates_typeName s).bind (keeps_typeName (steady_within text) s) fun type => locates_expect_bind ?_
    exact (locates_arguments hn _).bind (keeps_arguments (steady_within text) hn.keeps _) fun _ => locates_pure _
  · exact locates_reference hn s

theorem locates_parenthesized (s : Setting) : Locates text (parenthesized s nested) := by
  unfold parenthesized
  refine (locates_castType? s).bind (keeps_castType? (steady_within text) s) fun type => ?_
  split
  · exact hn.operand.bind hn.keeps.operand fun _ => locates_pure _
  · refine locates_advance_bind (hn.expression.bind hn.keeps.expression fun _ => ?_)
    exact locates_expect_bind (locates_pure _)

theorem locates_primary (s : Setting) : Locates text (primary s nested) := by
  unfold primary
  refine locates_current_bind fun token htoken => ?_
  split
  · exact locates_literal _
  · exact locates_literal _
  · exact locates_named hn s
  · split
    · exact locates_parenthesized hn s
    · exact locates_throw (htoken _)
  · exact locates_throw (htoken _)

/-! ## Operators -/

theorem locates_unary (s : Setting) : Locates text (unary s nested) := by
  unfold unary
  refine locates_current_bind fun token htoken => ?_
  split
  · refine locates_advance_bind (hn.operand.bind hn.keeps.operand fun e => ?_)
    split
    · exact locates_pure _
    · exact locates_throw (htoken _)
  · split
    · refine locates_advance_bind (locates_current_bind fun operand _ => ?_)
      split
      · exact locates_literal _
      · refine hn.operand.bind hn.keeps.operand fun e => ?_
        split
        · exact locates_pure _
        · exact locates_throw (htoken _)
    · refine (locates_primary hn s).bind (keeps_primary (steady_within text) hn.keeps s) fun e => ?_
      exact locates_remaining_bind fun bound => locates_accesses hn s bound e

omit hn in
theorem locates_chain {operand : ParseM Expr} (ho : Locates text operand)
    (hk : Keeps (Cursor.Within text) operand) (s : Setting) (ops : List BinaryOp) (bound : Nat) (left : Expr) :
    Locates text (chain s ops operand bound left) := by
  induction bound generalizing left with
  | zero => exact locates_pure _
  | succ bound ih =>
    unfold chain
    refine locates_current_bind fun token htoken => ?_
    split
    · exact locates_pure _
    · refine locates_advance_bind (ho.bind hk fun right => ?_)
      split
      · exact ih _
      · exact locates_throw (htoken _)

omit hn in
theorem locates_binary {operand : ParseM Expr} (ho : Locates text operand)
    (hk : Keeps (Cursor.Within text) operand) (s : Setting) (levels : List (List BinaryOp)) :
    Locates text (binary s operand levels) := by
  induction levels with
  | nil => exact ho
  | cons ops tighter ih =>
    have hkeeps := keeps_binary (steady_within text) hk s tighter
    exact ih.bind hkeeps fun left => locates_remaining_bind fun bound => locates_chain ih hkeeps s ops bound left

theorem locates_coalesced (s : Setting) : Locates text (coalesced s nested) := by
  have hunary := keeps_unary (steady_within text) hn.keeps s
  unfold coalesced
  refine (locates_binary (locates_unary hn s) hunary s levels).bind
    (keeps_binary (steady_within text) hunary s levels) fun left => ?_
  refine locates_current_bind fun token htoken => ?_
  split
  · refine locates_advance_bind (hn.coalesced.bind hn.keeps.coalesced fun right => ?_)
    split
    · exact locates_pure _
    · exact locates_throw (htoken _)
  · exact locates_pure _

theorem locates_expression (s : Setting) : Locates text (expression s nested) := by
  unfold expression
  refine (locates_coalesced hn s).bind (keeps_coalesced (steady_within text) hn.keeps s) fun test => ?_
  refine locates_current_bind fun token htoken => ?_
  split
  · refine locates_advance_bind (hn.expression.bind hn.keeps.expression fun ifTrue => locates_expect_bind ?_)
    refine hn.expression.bind hn.keeps.expression fun ifFalse => ?_
    split
    · split
      · exact locates_pure _
      · exact locates_throw (htoken _)
    · exact locates_throw (htoken _)
  · exact locates_pure _

end Readers

theorem locates_nestedWithin (s : Setting) (depth : Nat) : (nestedWithin s depth).Locates text := by
  induction depth with
  | zero =>
    have hrefuse : Locates text (do throw ((← current).fault .expectedExpression) : ParseM Expr) :=
      locates_current_bind fun token htoken => locates_throw (htoken _)
    exact ⟨keeps_nestedWithin (steady_within text) s 0, hrefuse, hrefuse, hrefuse⟩
  | succ depth ih =>
    exact ⟨keeps_nestedWithin (steady_within text) s _, locates_expression ih s, locates_coalesced ih s,
      locates_unary ih s⟩

theorem locates_parse (s : Setting) : Locates text (parse s) :=
  locates_remaining_bind fun bound => (locates_nestedWithin s (bound + 1)).expression

theorem within_of_parseBytes {s : Setting} {whole : Bool} {fault : Fault}
    (h : parseBytes s text whole = .error fault) : fault.Within text := by
  unfold parseBytes at h
  cases hc : Cursor.ofText text with
  | error raised =>
    rw [hc] at h
    cases h
    unfold Cursor.ofText at hc
    split at hc
    · cases hc
    · rename_i raised rest hnext
      cases hc
      exact (Lexer.tokens_within text).next_fault hnext
  | ok c =>
    have hwithin := within_of_ofText hc
    simp only [hc, bind, Except.bind, parseAt] at h
    cases hrun : (parse s).run.run c with
    | mk result c' =>
      rw [hrun] at h
      cases result with
      | error raised =>
        cases h
        exact locates_parse s c fault c' hwithin hrun
      | ok e =>
        dsimp only at h
        split at h
        · cases h
          exact (keeps_parse (steady_within text) s c e c' hwithin hrun).token.fault _
        · cases h

/-- An expression ends where a character begins or the text ends. -/
theorem exists_fromByte?_stop {s : Setting} {whole : Bool} {p : Parsed}
    (h : parseBytes s text whole = .ok p) : ∃ rest, fromByte? p.stop text = some rest := by
  obtain ⟨c, c', hc, hrun, -, hp⟩ := parseBytes_eq_ok.mp h
  obtain ⟨rest, hrest⟩ := (keeps_parse (steady_within text) s c p.expr c' (within_of_ofText hc) hrun).token.stands
  rw [hp]
  exact ⟨_, hrest⟩

end DataBinding.Grammar
