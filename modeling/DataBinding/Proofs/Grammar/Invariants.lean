import DataBinding.Grammar.Expression
import Mathlib.Data.List.Basic

/-!
# Invariants of reading

A reader moves its cursor forward, records namespaces, and goes back only to cursors that it has been at.
So what holds of a cursor, and keeps holding when a token is passed or a namespace recorded, holds of every
cursor that a reader ends at without a fault.
-/
namespace DataBinding.Grammar

variable {ε σ α β : Type}

/-! ## Runs -/

theorem run_bind (m : ExceptT ε (StateM σ) α) (f : α → ExceptT ε (StateM σ) β) (c : σ) :
    (m >>= f).run.run c = match m.run.run c with
      | (.ok a, c') => (f a).run.run c'
      | (.error fault, c') => (.error fault, c') := by
  rw [ExceptT.run_bind, StateT.run_bind]
  cases m.run.run c with
  | mk result c' => cases result <;> rfl

theorem run_bind_eq_ok {m : ExceptT ε (StateM σ) α} {f : α → ExceptT ε (StateM σ) β} {c c'' : σ} {b : β} :
    (m >>= f).run.run c = (.ok b, c'') ↔
      ∃ a c', m.run.run c = (.ok a, c') ∧ (f a).run.run c' = (.ok b, c'') := by
  rw [run_bind]
  cases m.run.run c with
  | mk result c' =>
    cases result with
    | error fault =>
      constructor
      · intro h
        cases h
      · rintro ⟨a, c₁, h, -⟩
        cases h
    | ok a =>
      constructor
      · intro h
        exact ⟨a, c', rfl, h⟩
      · rintro ⟨a₁, c₁, h, hf⟩
        cases h
        exact hf

theorem run_current_bind (f : Token → ParseM β) (c : Cursor) :
    (current >>= f).run.run c = (f c.token).run.run c := rfl

theorem run_remaining_bind (f : Nat → ParseM β) (c : Cursor) :
    (remaining >>= f).run.run c = (f c.remaining).run.run c := rfl

theorem run_advance (c : Cursor) :
    advance.run.run c = match c.rest.next with
      | (.ok token, rest) => (.ok (), { c with token, rest })
      | (.error fault, rest) => (.error fault, { c with rest }) := by
  have h : advance.run.run c = (match c.rest.next with
      | (.ok token, rest) => (set { c with token, rest } : ParseM Unit)
      | (.error fault, rest) => do
        set { c with rest }
        throw fault).run.run c := rfl
  rw [h]
  split <;> rfl

theorem run_advance_eq_ok {c c' : Cursor} {u : Unit} (h : advance.run.run c = (.ok u, c')) :
    ∃ token rest, c.rest.next = (.ok token, rest) ∧ c' = { c with token, rest } := by
  rw [run_advance] at h
  split at h
  · rename_i token rest hn
    exact ⟨token, rest, hn, (Prod.mk.inj h).2.symm⟩
  · cases h

/-- An expression is read from a text where reading from its first token on ends. -/
theorem parseBytes_eq_ok {s : Setting} {text : List Char} {whole : Bool} {p : Parsed} :
    parseBytes s text whole = .ok p ↔ ∃ c c', Cursor.ofText text = .ok c ∧
      (parse s).run.run c = (.ok p.expr, c') ∧ (whole = true → c'.token.kind = .eof) ∧
        p = ⟨p.expr, c'.used, c'.token.start⟩ := by
  unfold parseBytes parseAt
  cases hc : Cursor.ofText text with
  | error fault =>
    simp [bind, Except.bind]
  | ok c =>
    cases hrun : (parse s).run.run c with
    | mk result c' =>
      cases result with
      | error fault =>
        simp only [bind, Except.bind, hrun]
        constructor
        · intro h
          cases h
        · rintro ⟨c₁, c₁', hc₁, hrun₁, -⟩
          cases hc₁
          rw [hrun] at hrun₁
          cases hrun₁
      | ok e =>
        simp only [bind, Except.bind, hrun]
        constructor
        · intro h
          split at h
          · cases h
          · rename_i hend
            cases h
            exact ⟨c, c', rfl, hrun, by simpa using hend, rfl⟩
        · rintro ⟨c₁, c₁', hc₁, hrun₁, hend, hp⟩
          cases hc₁
          rw [hrun] at hrun₁
          cases hrun₁
          rw [if_neg (by simpa using hend), hp]
          rfl

/-! ## Invariants -/

/-- A property of cursors that lasts when a token is passed or a namespace is recorded. -/
structure Steady (I : Cursor → Prop) : Prop where
  pass : ∀ c token rest, I c → c.rest.next = (.ok token, rest) → I { c with token, rest }
  record : ∀ c used, I c → I { c with used }

/-- Whatever the reader returns, it ends with the property if it starts with it. -/
def Keeps (I : Cursor → Prop) (m : ParseM α) : Prop :=
  ∀ c a c', I c → m.run.run c = (.ok a, c') → I c'

section Keeps

variable {I : Cursor → Prop}

theorem keeps_pure (a : α) : Keeps I (pure a : ParseM α) := by
  intro c b c' hc h
  cases h
  exact hc

theorem keeps_throw (fault : Fault) : Keeps I (throw fault : ParseM α) := by
  intro c b c' hc h
  cases h

theorem Keeps.bind {m : ParseM α} {f : α → ParseM β} (hm : Keeps I m) (hf : ∀ a, Keeps I (f a)) :
    Keeps I (m >>= f) := by
  intro c b c'' hc h
  obtain ⟨a, c', ha, hb⟩ := run_bind_eq_ok.mp h
  exact hf a c' b c'' (hm c a c' hc ha) hb

theorem Keeps.map {m : ParseM α} {f : α → β} (hm : Keeps I m) : Keeps I (f <$> m) := by
  rw [map_eq_pure_bind]
  exact hm.bind fun a => keeps_pure (f a)

theorem keeps_current : Keeps I current := by
  intro c token c' hc h
  cases h
  exact hc

theorem keeps_remaining : Keeps I remaining := by
  intro c n c' hc h
  cases h
  exact hc

theorem keeps_get_bind {f : Cursor → ParseM β} (hf : ∀ c, I c → Keeps I (f c)) :
    Keeps I (get >>= f) :=
  fun c b c' hc h => hf c hc c b c' hc h

theorem keeps_set {c : Cursor} (hc : I c) : Keeps I (set c : ParseM Unit) := by
  intro c₁ u c' _ h
  cases h
  exact hc

variable (hI : Steady I)
include hI

theorem keeps_advance : Keeps I advance := by
  intro c u c' hc h
  obtain ⟨token, rest, hn, rfl⟩ := run_advance_eq_ok h
  exact hI.pass c token rest hc hn

theorem keeps_expect (text context : String) : Keeps I (expect text context) := by
  unfold expect
  refine keeps_current.bind fun token => ?_
  split
  · exact keeps_advance hI
  · exact keeps_throw _

theorem keeps_resolveType (s : Setting) (name : String) : Keeps I (resolveType s name) := by
  unfold resolveType
  split
  · exact keeps_pure _
  · refine Keeps.bind ?_ fun _ => keeps_pure _
    intro c u c' hc h
    cases h
    exact hI.record c _ hc

/-! ## Type names -/

omit hI in
theorem keeps_settle {start : Cursor} (hs : I start) {found : Option (TypeRef × Cursor)}
    (hf : ∀ p ∈ found, I p.2) : Keeps I (settle start found) := by
  unfold settle
  split
  · exact (keeps_set (hf _ rfl)).bind fun _ => keeps_pure _
  · exact (keeps_set hs).bind fun _ => keeps_pure _

theorem keeps_dottedTypeName (s : Setting) {start : Cursor} (hs : I start) (bound : Nat) (name : String)
    {found : Option (TypeRef × Cursor)} (hf : ∀ p ∈ found, I p.2) :
    Keeps I (dottedTypeName s start bound name found) := by
  induction bound generalizing name found with
  | zero => exact keeps_settle hs hf
  | succ bound ih =>
    unfold dottedTypeName
    refine keeps_current.bind fun token => ?_
    split
    · exact keeps_settle hs hf
    · refine (keeps_advance hI).bind fun _ => keeps_current.bind fun part => ?_
      split
      · exact keeps_settle hs hf
      · refine (keeps_advance hI).bind fun _ => (keeps_resolveType hI s _).bind fun resolved => ?_
        split
        · exact keeps_get_bind fun c hc => ih _ (by simpa using hc)
        · exact ih _ hf

theorem keeps_labelledTypeName (s : Setting) {start : Cursor} (hs : I start) (label : String) :
    Keeps I (labelledTypeName s start label) := by
  unfold labelledTypeName
  refine keeps_current.bind fun part => ?_
  split
  · exact keeps_settle hs (by simp)
  · refine (keeps_advance hI).bind fun _ => (keeps_resolveType hI s _).bind fun resolved => ?_
    split
    · exact keeps_pure _
    · exact keeps_settle hs (by simp)

theorem keeps_typeName? (s : Setting) : Keeps I (typeName? s) := by
  unfold typeName?
  refine keeps_get_bind fun start hs => ?_
  split
  · exact keeps_pure _
  · refine (keeps_advance hI).bind fun _ => keeps_current.bind fun token => ?_
    split
    · exact (keeps_advance hI).bind fun _ => keeps_labelledTypeName hI s hs _
    · refine (keeps_resolveType hI s _).bind fun resolved => ?_
      split
      · refine keeps_remaining.bind fun bound => keeps_get_bind fun c hc => ?_
        exact keeps_dottedTypeName hI s hs bound _ (by simpa using hc)
      · exact keeps_remaining.bind fun bound => keeps_dottedTypeName hI s hs bound _ (by simp)

theorem keeps_typeName (s : Setting) : Keeps I (typeName s) := by
  unfold typeName
  refine keeps_current.bind fun token => (keeps_typeName? hI s).bind fun found => ?_
  split
  · exact keeps_pure _
  · exact keeps_throw _

theorem keeps_typeOperand (s : Setting) (keyword : String) : Keeps I (typeOperand s keyword) :=
  (keeps_expect hI _ _).bind fun _ => (keeps_typeName hI s).bind fun _ =>
    (keeps_expect hI _ _).bind fun _ => keeps_pure _

theorem keeps_castType? (s : Setting) : Keeps I (castType? s) := by
  unfold castType?
  refine keeps_get_bind fun start hs => (keeps_advance hI).bind fun _ => ?_
  refine (keeps_typeName? hI s).bind fun found => ?_
  split
  · exact keeps_settle hs (by simp)
  · refine keeps_current.bind fun token => ?_
    split
    · exact keeps_settle hs (by simp)
    · refine (keeps_advance hI).bind fun _ => keeps_current.bind fun token => ?_
      split
      · exact keeps_pure _
      · exact keeps_settle hs (by simp)

theorem keeps_literal (e : Expr) : Keeps I (literal e) :=
  (keeps_advance hI).bind fun _ => keeps_pure _

end Keeps

structure Nested.Keeps (I : Cursor → Prop) (nested : Nested) : Prop where
  expression : Grammar.Keeps I nested.expression
  coalesced : Grammar.Keeps I nested.coalesced
  operand : Grammar.Keeps I nested.operand

section Readers

variable {I : Cursor → Prop} (hI : Steady I) {nested : Nested} (hn : nested.Keeps I)
include hI hn

/-! ## Accesses -/

theorem keeps_moreArguments (bound : Nat) : Keeps I (moreArguments nested bound) := by
  induction bound with
  | zero => exact keeps_pure _
  | succ bound ih =>
    unfold moreArguments
    refine keeps_current.bind fun token => ?_
    split
    · exact (keeps_advance hI).bind fun _ => hn.expression.bind fun e => ih.bind fun es => keeps_pure _
    · exact keeps_pure _

theorem keeps_arguments (close : String) : Keeps I (arguments nested close) := by
  unfold arguments
  refine keeps_current.bind fun token => ?_
  split
  · exact (keeps_expect hI _ _).bind fun _ => keeps_pure _
  · refine hn.expression.bind fun e => keeps_remaining.bind fun bound => ?_
    exact (keeps_moreArguments hI hn bound).bind fun es => (keeps_expect hI _ _).bind fun _ => keeps_pure _

theorem keeps_elementAccess (s : Setting) (target : Expr) (marker : Option Marker) :
    Keeps I (elementAccess s nested target marker) := by
  unfold elementAccess
  refine keeps_current.bind fun token => (keeps_expect hI _ _).bind fun _ => ?_
  refine (keeps_arguments hI hn _).bind fun args => ?_
  split
  · exact keeps_throw _
  · split
    · exact keeps_pure _
    · exact keeps_throw _

theorem keeps_callAccess (s : Setting) (target : Expr) (name : Token) (nullSafe : Bool) :
    Keeps I (callAccess s nested target name nullSafe) := by
  unfold callAccess
  refine (keeps_expect hI _ _).bind fun _ => (keeps_arguments hI hn _).bind fun args => ?_
  split
  · exact keeps_pure _
  · split
    · exact keeps_throw _
    · exact keeps_throw _

omit hI hn in
theorem keeps_memberAccess (s : Setting) (target : Expr) (name : Token) (marker : Option Marker)
    (nullSafe : Bool) : Keeps I (memberAccess s target name marker nullSafe) := by
  unfold memberAccess
  split
  · exact keeps_pure _
  · exact keeps_throw _

theorem keeps_access? (s : Setting) (target : Expr) : Keeps I (access? s nested target) := by
  unfold access?
  refine keeps_current.bind fun sign => ?_
  split
  · exact (keeps_elementAccess hI hn s target none).map
  · split
    · exact keeps_pure _
    · refine (keeps_advance hI).bind fun _ => keeps_current.bind fun name => ?_
      split
      · exact (keeps_elementAccess hI hn s target _).map
      · split
        · exact keeps_throw _
        · refine (keeps_advance hI).bind fun _ => keeps_current.bind fun token => ?_
          split
          · exact (keeps_callAccess hI hn s target name _).map
          · exact (keeps_memberAccess s target name _ _).map

theorem keeps_accesses (s : Setting) (bound : Nat) (target : Expr) :
    Keeps I (accesses s nested bound target) := by
  induction bound generalizing target with
  | zero => exact keeps_pure _
  | succ bound ih =>
    unfold accesses
    refine (keeps_access? hI hn s target).bind fun found => ?_
    split
    · exact keeps_pure _
    · exact ih _

/-! ## Primary expressions -/

theorem keeps_rootAccess? (s : Setting) : Keeps I (rootAccess? s nested) := by
  have hnone : ∀ start : Cursor, I start →
      Keeps I (do set start; return none : ParseM (Option Expr)) :=
    fun start hs => (keeps_set hs).bind fun _ => keeps_pure _
  unfold rootAccess?
  refine keeps_get_bind fun start hs => (keeps_advance hI).bind fun _ => keeps_current.bind fun behind => ?_
  split
  · split
    · exact hnone start hs
    · exact (keeps_callAccess hI hn s _ _ _).map
  · split
    · exact hnone start hs
    · split
      · exact keeps_pure _
      · exact hnone start hs

theorem keeps_reference (s : Setting) : Keeps I (reference s nested) := by
  unfold reference
  refine keeps_current.bind fun name => (keeps_rootAccess? hI hn s).bind fun found => ?_
  split
  · exact keeps_pure _
  · refine (keeps_typeName? hI s).bind fun type => ?_
    split
    · exact keeps_pure _
    · split
      · exact keeps_literal hI _
      · exact keeps_throw _

theorem keeps_named (s : Setting) : Keeps I (named s nested) := by
  unfold named
  refine keeps_current.bind fun token => ?_
  split
  · exact keeps_literal hI _
  · exact keeps_literal hI _
  · exact keeps_literal hI _
  · exact keeps_literal hI _
  · exact (keeps_advance hI).bind fun _ => (keeps_typeOperand hI s _).bind fun _ => keeps_pure _
  · exact (keeps_advance hI).bind fun _ => (keeps_typeOperand hI s _).bind fun _ => keeps_pure _
  · refine (keeps_advance hI).bind fun _ => (keeps_typeName hI s).bind fun _ => ?_
    exact (keeps_expect hI _ _).bind fun _ => (keeps_arguments hI hn _).bind fun _ => keeps_pure _
  · exact keeps_reference hI hn s

theorem keeps_parenthesized (s : Setting) : Keeps I (parenthesized s nested) := by
  unfold parenthesized
  refine (keeps_castType? hI s).bind fun type => ?_
  split
  · exact hn.operand.bind fun _ => keeps_pure _
  · refine (keeps_advance hI).bind fun _ => hn.expression.bind fun _ => ?_
    exact (keeps_expect hI _ _).bind fun _ => keeps_pure _

theorem keeps_primary (s : Setting) : Keeps I (primary s nested) := by
  unfold primary
  refine keeps_current.bind fun token => ?_
  split
  · exact keeps_literal hI _
  · exact keeps_literal hI _
  · exact keeps_named hI hn s
  · split
    · exact keeps_parenthesized hI hn s
    · exact keeps_throw _
  · exact keeps_throw _

/-! ## Operators -/

theorem keeps_unary (s : Setting) : Keeps I (unary s nested) := by
  unfold unary
  refine keeps_current.bind fun token => ?_
  split
  · refine (keeps_advance hI).bind fun _ => hn.operand.bind fun e => ?_
    split
    · exact keeps_pure _
    · exact keeps_throw _
  · split
    · refine (keeps_advance hI).bind fun _ => keeps_current.bind fun operand => ?_
      split
      · exact keeps_literal hI _
      · refine hn.operand.bind fun e => ?_
        split
        · exact keeps_pure _
        · exact keeps_throw _
    · refine (keeps_primary hI hn s).bind fun e => keeps_remaining.bind fun bound => ?_
      exact keeps_accesses hI hn s bound e

omit hn in
theorem keeps_chain {operand : ParseM Expr} (ho : Keeps I operand) (s : Setting) (ops : List BinaryOp)
    (bound : Nat) (left : Expr) : Keeps I (chain s ops operand bound left) := by
  induction bound generalizing left with
  | zero => exact keeps_pure _
  | succ bound ih =>
    unfold chain
    refine keeps_current.bind fun token => ?_
    split
    · exact keeps_pure _
    · refine (keeps_advance hI).bind fun _ => ho.bind fun right => ?_
      split
      · exact ih _
      · exact keeps_throw _

omit hn in
theorem keeps_binary {operand : ParseM Expr} (ho : Keeps I operand) (s : Setting)
    (levels : List (List BinaryOp)) : Keeps I (binary s operand levels) := by
  induction levels with
  | nil => exact ho
  | cons ops tighter ih =>
    exact ih.bind fun left => keeps_remaining.bind fun bound => keeps_chain hI ih s ops bound left

theorem keeps_coalesced (s : Setting) : Keeps I (coalesced s nested) := by
  unfold coalesced
  refine (keeps_binary hI (keeps_unary hI hn s) s levels).bind fun left => keeps_current.bind fun token => ?_
  split
  · refine (keeps_advance hI).bind fun _ => hn.coalesced.bind fun right => ?_
    split
    · exact keeps_pure _
    · exact keeps_throw _
  · exact keeps_pure _

theorem keeps_expression (s : Setting) : Keeps I (expression s nested) := by
  unfold expression
  refine (keeps_coalesced hI hn s).bind fun test => keeps_current.bind fun token => ?_
  split
  · refine (keeps_advance hI).bind fun _ => hn.expression.bind fun ifTrue => ?_
    refine (keeps_expect hI _ _).bind fun _ => hn.expression.bind fun ifFalse => ?_
    split
    · split
      · exact keeps_pure _
      · exact keeps_throw _
    · exact keeps_throw _
  · exact keeps_pure _

end Readers

theorem keeps_nestedWithin {I : Cursor → Prop} (hI : Steady I) (s : Setting) (depth : Nat) :
    (nestedWithin s depth).Keeps I := by
  induction depth with
  | zero =>
    have hrefuse : Keeps I (do throw ((← current).fault .expectedExpression) : ParseM Expr) :=
      keeps_current.bind fun token => keeps_throw _
    exact ⟨hrefuse, hrefuse, hrefuse⟩
  | succ depth ih =>
    exact ⟨keeps_expression hI ih s, keeps_coalesced hI ih s, keeps_unary hI ih s⟩

/-- Reading an expression keeps what lasts when tokens are passed and namespaces recorded. -/
theorem keeps_parse {I : Cursor → Prop} (hI : Steady I) (s : Setting) : Keeps I (parse s) :=
  keeps_remaining.bind fun bound => (keeps_nestedWithin hI s (bound + 1)).expression

/-! ## Tokens left to read -/

theorem remaining_le_of_next {c : Cursor} {token : Token} {rest : TokenStream}
    (h : c.rest.next = (.ok token, rest)) :
    Cursor.remaining { c with token, rest } ≤ c.rest.size := by
  cases hs : c.rest with
  | eof offset =>
    rw [hs] at h
    cases h
    simp [Cursor.remaining, TokenStream.size, Token.eof]
  | stuck fault | skip fault rest =>
    rw [hs] at h
    cases h
  | token head rest =>
    rw [hs] at h
    cases h
    simp only [Cursor.remaining, TokenStream.size]
    split <;> omega

theorem size_le_remaining (c : Cursor) : c.rest.size ≤ c.remaining := by
  unfold Cursor.remaining
  split <;> omega

theorem remaining_lt_of_advance {c c' : Cursor} {u : Unit} (hc : c.token.kind ≠ .eof)
    (h : advance.run.run c = (.ok u, c')) : c'.remaining < c.remaining := by
  obtain ⟨token, rest, hn, rfl⟩ := run_advance_eq_ok h
  have hle := remaining_le_of_next hn
  have hlt : c.remaining = c.rest.size + 1 := if_neg hc
  omega

theorem remaining_lt_of_expect {text context : String} (hempty : text ≠ "") {c c' : Cursor} {u : Unit}
    (h : (expect text context).run.run c = (.ok u, c')) : c'.remaining < c.remaining := by
  unfold expect at h
  rw [run_current_bind] at h
  split at h
  · rename_i hword
    apply remaining_lt_of_advance _ h
    intro hkind
    simp [Token.word, hkind, hempty.symm] at hword
  · cases h

theorem steady_remaining (n : Nat) : Steady fun c => c.remaining ≤ n where
  pass c _ _ hc h :=
    Nat.le_trans (remaining_le_of_next h) (Nat.le_trans (size_le_remaining c) hc)
  record _ _ hc := hc

/-- Reading never leaves more tokens than there were. -/
def Falls (m : ParseM α) : Prop := ∀ n, Keeps (fun c => c.remaining ≤ n) m

theorem Falls.bind {m : ParseM α} {f : α → ParseM β} (hm : Falls m) (hf : ∀ a, Falls (f a)) :
    Falls (m >>= f) :=
  fun n => (hm n).bind fun a => hf a n

theorem Falls.le {m : ParseM α} (hm : Falls m) {c c' : Cursor} {a : α}
    (h : m.run.run c = (.ok a, c')) : c'.remaining ≤ c.remaining :=
  hm c.remaining c a c' (Nat.le_refl _) h

theorem falls_advance : Falls advance := fun n => keeps_advance (steady_remaining n)

theorem falls_resolveType (s : Setting) (name : String) : Falls (resolveType s name) :=
  fun n => keeps_resolveType (steady_remaining n) s name

theorem falls_typeName? (s : Setting) : Falls (typeName? s) :=
  fun n => keeps_typeName? (steady_remaining n) s

/-! ## What may be missing

A reader of something that may be missing goes back to its start, or it passes tokens. -/

/-- Without a result the reader ends at the start, and with one it leaves at most `n` tokens. -/
def Settles (start : Cursor) (n : Nat) (m : ParseM (Option α)) : Prop :=
  ∀ c found c', c.remaining ≤ n → m.run.run c = (.ok found, c') →
    match found with
    | none => c' = start
    | some _ => c'.remaining ≤ n

section Settles

variable {start : Cursor} {n : Nat}

theorem Settles.bind {m : ParseM β} {f : β → ParseM (Option α)} (hm : Falls m)
    (hf : ∀ b, Settles start n (f b)) : Settles start n (m >>= f) := by
  intro c found c'' hc h
  obtain ⟨b, c', hb, ha⟩ := run_bind_eq_ok.mp h
  exact hf b c' found c'' (hm n c b c' hc hb) ha

theorem settles_current_bind {f : Token → ParseM (Option α)} (hf : ∀ t, Settles start n (f t)) :
    Settles start n (current >>= f) :=
  fun c found c' hc h => hf c.token c found c' hc h

theorem settles_some (a : α) : Settles start n (pure (some a)) := by
  intro c found c' hc h
  cases h
  exact hc

theorem settles_throw (fault : Fault) : Settles start n (throw fault : ParseM (Option α)) := by
  intro c found c' hc h
  cases h

theorem settles_map_some {m : ParseM α} (hm : Falls m) : Settles start n (some <$> m) := by
  rw [map_eq_pure_bind]
  exact Settles.bind hm settles_some

theorem settles_none : Settles start n (do set start; return none : ParseM (Option α)) := by
  intro c found c' hc h
  cases h
  rfl

theorem settles_settle {found : Option (TypeRef × Cursor)} (hf : ∀ p ∈ found, p.2.remaining ≤ n) :
    Settles start n (settle start found) := by
  cases found with
  | none => exact settles_none
  | some p =>
    intro c found c' hc h
    cases h
    exact hf p rfl

theorem settles_dottedTypeName (s : Setting) (bound : Nat) (name : String)
    {found : Option (TypeRef × Cursor)} (hf : ∀ p ∈ found, p.2.remaining ≤ n) :
    Settles start n (dottedTypeName s start bound name found) := by
  induction bound generalizing name found with
  | zero => exact settles_settle hf
  | succ bound ih =>
    unfold dottedTypeName
    refine settles_current_bind fun token => ?_
    split
    · exact settles_settle hf
    · refine Settles.bind falls_advance fun _ => settles_current_bind fun part => ?_
      split
      · exact settles_settle hf
      · refine Settles.bind falls_advance fun _ => Settles.bind (falls_resolveType s _) fun resolved => ?_
        split
        · intro c found c' hc h
          exact ih _ (by simpa using hc) c found c' hc h
        · exact ih _ hf

theorem settles_labelledTypeName (s : Setting) (label : String) :
    Settles start n (labelledTypeName s start label) := by
  unfold labelledTypeName
  refine settles_current_bind fun part => ?_
  split
  · exact settles_settle (by simp)
  · refine Settles.bind falls_advance fun _ => Settles.bind (falls_resolveType s _) fun resolved => ?_
    split
    · exact settles_some _
    · exact settles_settle (by simp)

end Settles

/-- At the cursor, the reader stays without a result and passes tokens with one. -/
def GainsAt (c : Cursor) (m : ParseM (Option α)) : Prop :=
  ∀ found c', m.run.run c = (.ok found, c') →
    match found with
    | none => c' = c
    | some _ => c'.remaining < c.remaining

section GainsAt

variable {c : Cursor}

theorem gainsAt_none : GainsAt c (pure none : ParseM (Option α)) := by
  intro found c' h
  cases h
  rfl

theorem gainsAt_advance (hc : c.token.kind ≠ .eof) {m : ParseM (Option α)}
    (h : ∀ n, Settles c n m) : GainsAt c (do advance; m) := by
  intro found c'' hrun
  obtain ⟨u, c', hadvance, hm⟩ := run_bind_eq_ok.mp hrun
  have hlt := remaining_lt_of_advance hc hadvance
  have hle := h c'.remaining c' found c'' (Nat.le_refl _) hm
  cases found with
  | none => exact hle
  | some a => exact Nat.lt_of_le_of_lt hle hlt

theorem gainsAt_expect (hc : c.token.kind ≠ .eof) (text context : String) {m : ParseM (Option α)}
    (h : ∀ n, Settles c n m) : GainsAt c (do expect text context; m) := by
  unfold expect
  intro found c' hrun
  rw [bind_assoc, run_current_bind] at hrun
  split at hrun
  · exact gainsAt_advance hc h found c' hrun
  · cases hrun

theorem gainsAt_current_bind {f : Token → ParseM (Option α)} (h : GainsAt c (f c.token)) :
    GainsAt c (current >>= f) := h

theorem gainsAt_get_bind {f : Cursor → ParseM (Option α)} (h : GainsAt c (f c)) :
    GainsAt c (get >>= f) := h

theorem gainsAt_typeName? (s : Setting) (hc : c.token.kind ≠ .eof) : GainsAt c (typeName? s) := by
  unfold typeName?
  apply gainsAt_get_bind
  split
  · exact gainsAt_none
  · refine gainsAt_advance hc fun n => settles_current_bind fun token => ?_
    split
    · exact Settles.bind falls_advance fun _ => settles_labelledTypeName s _
    · refine Settles.bind (falls_resolveType s _) fun resolved => ?_
      split
      · intro c₁ found c' hc₁ hrun
        exact settles_dottedTypeName s _ _ (by simpa using hc₁) c₁ found c' hc₁ hrun
      · intro c₁ found c' hc₁ hrun
        exact settles_dottedTypeName s _ _ (by simp) c₁ found c' hc₁ hrun

theorem gainsAt_castType? (s : Setting) (hc : c.token.kind ≠ .eof) : GainsAt c (castType? s) := by
  unfold castType?
  apply gainsAt_get_bind
  refine gainsAt_advance hc fun n => Settles.bind (falls_typeName? s) fun found => ?_
  split
  · exact settles_settle (by simp)
  · refine settles_current_bind fun token => ?_
    split
    · exact settles_settle (by simp)
    · refine Settles.bind falls_advance fun _ => settles_current_bind fun token => ?_
      split
      · exact settles_some _
      · exact settles_settle (by simp)

variable {nested : Nested} (hn : ∀ n, nested.Keeps fun c => c.remaining ≤ n)
include hn

theorem gainsAt_rootAccess? (s : Setting) (hc : c.token.kind ≠ .eof) :
    GainsAt c (rootAccess? s nested) := by
  unfold rootAccess?
  apply gainsAt_get_bind
  refine gainsAt_advance hc fun n => settles_current_bind fun behind => ?_
  split
  · split
    · exact settles_none
    · exact settles_map_some fun n => keeps_callAccess (steady_remaining n) (hn n) s _ _ _
  · split
    · exact settles_none
    · split
      · exact settles_some _
      · exact settles_none

theorem gainsAt_elementAccess (s : Setting) (target : Expr) (marker : Option Marker)
    (hc : c.token.kind ≠ .eof) : GainsAt c (some <$> elementAccess s nested target marker) := by
  unfold elementAccess
  simp only [map_bind]
  apply gainsAt_current_bind
  refine gainsAt_expect hc _ _ fun n => ?_
  refine Settles.bind (fun n => keeps_arguments (steady_remaining n) (hn n) _) fun args => ?_
  split
  · exact settles_map_some fun n => keeps_throw _
  · split
    · exact settles_map_some fun n => keeps_pure _
    · exact settles_map_some fun n => keeps_throw _

theorem gainsAt_access? (s : Setting) (target : Expr) (hc : c.token.kind ≠ .eof) :
    GainsAt c (access? s nested target) := by
  unfold access?
  apply gainsAt_current_bind
  split
  · exact gainsAt_elementAccess hn s target none hc
  · split
    · exact gainsAt_none
    · refine gainsAt_advance hc fun n => settles_current_bind fun name => ?_
      have helement := fun n => keeps_elementAccess (steady_remaining n) (hn n) s target
      split
      · exact settles_map_some fun n => helement n _
      · split
        · exact settles_throw _
        · refine Settles.bind falls_advance fun _ => settles_current_bind fun token => ?_
          split
          · exact settles_map_some fun n => keeps_callAccess (steady_remaining n) (hn n) s _ _ _
          · exact settles_map_some fun n => keeps_memberAccess s _ _ _ _

end GainsAt

end DataBinding.Grammar
