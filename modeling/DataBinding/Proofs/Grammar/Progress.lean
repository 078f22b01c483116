import DataBinding.Proofs.Grammar.Endings

/-!
# Every expression takes a token

Whatever starts an expression passes the token that it starts with, and what comes behind never goes back
further than that. So an expression that is read from the front of a text ends behind the front.
-/
namespace DataBinding.Grammar
open Text

variable {α β : Type} {c c' : Cursor}

/-- From the cursor on, the reader passes tokens. -/
def PassesAt (c : Cursor) (m : ParseM α) : Prop :=
  ∀ a c', m.run.run c = (.ok a, c') → c'.remaining < c.remaining

theorem PassesAt.bind {m : ParseM α} {f : α → ParseM β} (hm : PassesAt c m) (hf : ∀ a, Falls (f a)) :
    PassesAt c (m >>= f) := by
  intro b c'' h
  obtain ⟨a, c', ha, hb⟩ := run_bind_eq_ok.mp h
  exact Nat.lt_of_le_of_lt ((hf a).le hb) (hm a c' ha)

theorem passesAt_current_bind {f : Token → ParseM β} (h : PassesAt c (f c.token)) :
    PassesAt c (current >>= f) := h

theorem passesAt_remaining_bind {f : Nat → ParseM β} (h : PassesAt c (f c.remaining)) :
    PassesAt c (remaining >>= f) := h

theorem passesAt_throw (fault : Fault) : PassesAt c (throw fault : ParseM α) := by
  intro a c' h
  cases h

theorem passesAt_advance (hc : c.token.kind ≠ .eof) : PassesAt c advance :=
  fun _ _ h => remaining_lt_of_advance hc h

theorem passesAt_literal (hc : c.token.kind ≠ .eof) (e : Expr) : PassesAt c (literal e) :=
  (passesAt_advance hc).bind fun _ _ => keeps_pure _

/-- Where something that may be missing is, tokens are passed; where it is missing, the rest passes them. -/
theorem GainsAt.bind {m : ParseM (Option α)} {f : Option α → ParseM β} (hm : GainsAt c m)
    (hsome : ∀ a, Falls (f (some a))) (hnone : PassesAt c (f none)) : PassesAt c (m >>= f) := by
  intro b c'' h
  obtain ⟨found, c', hfound, hb⟩ := run_bind_eq_ok.mp h
  have hgain := hm found c' hfound
  cases found with
  | none =>
    obtain rfl : c' = c := hgain
    exact hnone b c'' hb
  | some a => exact Nat.lt_of_le_of_lt ((hsome a).le hb) hgain

section Readers

variable {nested : Nested} (hn : ∀ n, nested.Keeps fun c => c.remaining ≤ n) (s : Setting)
include hn

theorem passesAt_reference (hc : c.token.kind ≠ .eof) : PassesAt c (reference s nested) := by
  unfold reference
  apply passesAt_current_bind
  refine (gainsAt_rootAccess? hn s hc).bind (fun e n => keeps_pure e) ?_
  refine (gainsAt_typeName? s hc).bind (fun type n => keeps_pure _) ?_
  dsimp only
  split
  · exact passesAt_literal hc _
  · exact passesAt_throw _

theorem passesAt_named (hc : c.token.kind ≠ .eof) : PassesAt c (named s nested) := by
  have hoperand (keyword : String) : Falls (typeOperand s keyword) :=
    fun n => keeps_typeOperand (steady_remaining n) s keyword
  unfold named
  apply passesAt_current_bind
  split
  · exact passesAt_literal hc _
  · exact passesAt_literal hc _
  · exact passesAt_literal hc _
  · exact passesAt_literal hc _
  · exact (passesAt_advance hc).bind fun _ => (hoperand _).bind fun _ _ => keeps_pure _
  · exact (passesAt_advance hc).bind fun _ => (hoperand _).bind fun _ _ => keeps_pure _
  · refine (passesAt_advance hc).bind fun _ n => (keeps_typeName (steady_remaining n) s).bind fun _ => ?_
    refine (keeps_expect (steady_remaining n) _ _).bind fun _ => ?_
    exact (keeps_arguments (steady_remaining n) (hn n) _).bind fun _ => keeps_pure _
  · exact passesAt_reference hn s hc

theorem passesAt_parenthesized (hc : c.token.kind ≠ .eof) : PassesAt c (parenthesized s nested) := by
  unfold parenthesized
  refine (gainsAt_castType? s hc).bind (fun type n => (hn n).operand.bind fun _ => keeps_pure _) ?_
  refine (passesAt_advance hc).bind fun _ n => (hn n).expression.bind fun _ => ?_
  exact (keeps_expect (steady_remaining n) _ _).bind fun _ => keeps_pure _

theorem passesAt_primary : PassesAt c (primary s nested) := by
  unfold primary
  apply passesAt_current_bind
  split
  · rename_i hkind
    exact passesAt_literal (by simp [hkind]) _
  · rename_i hkind
    exact passesAt_literal (by simp [hkind]) _
  · rename_i hkind
    exact passesAt_named hn s (by simp [hkind])
  · rename_i hkind
    split
    · exact passesAt_parenthesized hn s (by simp [hkind])
    · exact passesAt_throw _
  · exact passesAt_throw _

theorem passesAt_unary : PassesAt c (unary s nested) := by
  have hoperand (n : Nat) {e : Expr → ParseM Expr} (he : ∀ x, Keeps (fun c => c.remaining ≤ n) (e x)) :
      Keeps (fun c => c.remaining ≤ n) (nested.operand >>= e) := (hn n).operand.bind he
  unfold unary
  apply passesAt_current_bind
  split
  · rename_i hnot
    have hkind : c.token.kind ≠ .eof := by
      intro hkind
      simp [Token.isSymbol, Token.isKeyword, hkind] at hnot
    refine (passesAt_advance hkind).bind fun _ n => hoperand n fun e => ?_
    split
    · exact keeps_pure _
    · exact keeps_throw _
  · split
    · rename_i hminus
      have hkind : c.token.kind ≠ .eof := by
        intro hkind
        simp [Token.isSymbol, hkind] at hminus
      refine (passesAt_advance hkind).bind fun _ n => keeps_current.bind fun operand => ?_
      split
      · exact keeps_literal (steady_remaining n) _
      · refine hoperand n fun e => ?_
        split
        · exact keeps_pure _
        · exact keeps_throw _
    · refine (passesAt_primary hn s).bind fun e n => keeps_remaining.bind fun bound => ?_
      exact keeps_accesses (steady_remaining n) (hn n) s bound e

omit hn in
theorem passesAt_binary {operand : ParseM Expr} (hfalls : Falls operand) (hpasses : PassesAt c operand)
    (levels : List (List BinaryOp)) : PassesAt c (binary s operand levels) := by
  induction levels with
  | nil => exact hpasses
  | cons ops tighter ih =>
    refine ih.bind fun left n => keeps_remaining.bind fun bound => ?_
    exact keeps_chain (steady_remaining n) (keeps_binary (steady_remaining n) (hfalls n) s tighter) s ops
      bound left

theorem passesAt_coalesced : PassesAt c (coalesced s nested) := by
  have hfalls : Falls (unary s nested) := fun n => keeps_unary (steady_remaining n) (hn n) s
  refine (passesAt_binary s hfalls (passesAt_unary hn s) levels).bind fun left n =>
    keeps_current.bind fun token => ?_
  split
  · refine (keeps_advance (steady_remaining n)).bind fun _ => (hn n).coalesced.bind fun right => ?_
    split
    · exact keeps_pure _
    · exact keeps_throw _
  · exact keeps_pure _

theorem passesAt_expression : PassesAt c (expression s nested) := by
  refine (passesAt_coalesced hn s).bind fun test n => keeps_current.bind fun token => ?_
  split
  · refine (keeps_advance (steady_remaining n)).bind fun _ => (hn n).expression.bind fun ifTrue => ?_
    refine (keeps_expect (steady_remaining n) _ _).bind fun _ => (hn n).expression.bind fun ifFalse => ?_
    split
    · split
      · exact keeps_pure _
      · exact keeps_throw _
    · exact keeps_throw _
  · exact keeps_pure _

end Readers

theorem passesAt_parse (s : Setting) : PassesAt c (parse s) := by
  have hn := fun n => keeps_nestedWithin (steady_remaining n) s c.remaining
  apply passesAt_remaining_bind
  exact passesAt_expression hn s

/-- Behind the first token of a text there is nothing at its front. -/
theorem behind_of_ofText {u : List Char} (hu : trimStart u ≠ []) (hc : Cursor.ofText u = .ok c) :
    c.rest.All (fun t => 0 < t.start) fun stop => 0 < stop := by
  obtain ⟨token, rest, hn, rfl⟩ := ofText_eq_ok.mp hc
  obtain ⟨a, tail, ha⟩ := List.exists_cons_of_ne_nil hu
  obtain ⟨bound, hbound⟩ : ∃ bound, u.length = bound + 1 := by
    cases u with
    | nil => exact absurd rfl hu
    | cons d ds => exact ⟨ds.length, rfl⟩
  rw [Lexer.tokens, hbound] at hn
  cases hl : Lexer.lexeme? a tail with
  | none =>
    rcases Lexer.tokensFrom_of_fault bound 0 ha hl with ⟨_, heq⟩ | ⟨_, _, -, heq⟩ | ⟨_, _, _, -, heq⟩ <;>
    · rw [heq] at hn
      cases hn
  | some l =>
    rw [Lexer.tokensFrom_of_lexeme ha hl] at hn
    cases hn
    have hstop := Lexer.start_lt_stop hl (0 + byteLength (u.takeWhile isBlank))
    refine Lexer.tokensFrom_all _ _ _ (fun _ _ l' start hstart _ => ?_) fun stop hle => by omega
    simp only [Lexer.Lexeme.token]
    omega

/-- What is read from the front of a text ends behind the front. -/
theorem stop_pos_of_parseBytes {s : Setting} {u : List Char} {whole : Bool} {p : Parsed}
    (h : parseBytes s u whole = .ok p) : 0 < p.stop := by
  obtain ⟨c, c', hc, hrun, -, hp⟩ := parseBytes_eq_ok.mp h
  have hbehind := behind_of_ofText (trimStart_ne_nil_of_parseBytes h) hc
  have hlt := passesAt_parse s p.expr c' hrun
  have hstart : Passing 0 (.token c.token c.rest) c := Or.inr (Or.inl rfl)
  rcases keeps_parse (steady_passing hbehind) s c p.expr c' hstart hrun with ⟨hneg, -⟩ | hfirst | ⟨hpos, -⟩
  · omega
  · -- Still at the first token, it would have passed none.
    obtain ⟨htoken, hrest⟩ := Prod.mk.inj hfirst
    simp [Cursor.remaining, ← Except.ok.inj htoken, ← hrest] at hlt
  · rw [hp]
    exact hpos

end DataBinding.Grammar
