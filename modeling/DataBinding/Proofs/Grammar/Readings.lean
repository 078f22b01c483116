import DataBinding.Proofs.Grammar.Invariants
import DataBinding.Proofs.Metadata.Lookup
import DataBinding.Proofs.Metadata.Names
import DataBinding.Proofs.Token.Words

/-!
# What expressions are read as

An expression that is read is built up by rules, one for each form. A rule says all that a reader checks
before it builds the form: which members and methods the types of the operands have, and which types the
operators accept. Everything about expressions that are read follows from the rules by induction.
-/
namespace DataBinding.Grammar

variable {α β : Type}

/-! ## Values from regular tokens -/

/-- The current token and all that follow are regular. -/
def Cursor.Regular (c : Cursor) : Prop := c.token.Regular ∧ c.rest.All Token.Regular fun _ => True

theorem regular_eof (offset : Nat) : (Token.eof offset).Regular := ⟨nofun, nofun⟩

theorem regular_next {stream rest : TokenStream} {token : Token} (h : stream.All Token.Regular fun _ => True)
    (hnext : stream.next = (.ok token, rest)) : token.Regular ∧ rest.All Token.Regular fun _ => True := by
  cases stream with
  | eof offset =>
    cases hnext
    exact ⟨regular_eof offset, trivial⟩
  | stuck fault | skip fault rest => cases hnext
  | token head rest =>
    cases hnext
    exact h

theorem steady_regular : Steady Cursor.Regular where
  pass _ _ _ hc h := regular_next hc.2 h
  record _ _ hc := hc

theorem regular_ofText {text : List Char} {c : Cursor} (h : Cursor.ofText text = .ok c) : c.Regular := by
  unfold Cursor.ofText at h
  split at h
  · rename_i token rest hnext
    cases h
    exact regular_next (Lexer.all_regular_tokens text) hnext
  · cases h

/-- At the cursor, the reader returns only such values, and it ends at regular tokens. -/
def YieldsAt (c : Cursor) (P : α → Prop) (m : ParseM α) : Prop :=
  ∀ a c', m.run.run c = (.ok a, c') → c'.Regular ∧ P a

section YieldsAt

variable {c : Cursor} (hc : c.Regular) {P : β → Prop} {Q : α → Prop}

theorem YieldsAt.bind {m : ParseM α} {f : α → ParseM β} (hm : YieldsAt c Q m)
    (hf : ∀ a c', c'.Regular → Q a → YieldsAt c' P (f a)) : YieldsAt c P (m >>= f) := by
  intro b c'' h
  obtain ⟨a, c', ha, hb⟩ := run_bind_eq_ok.mp h
  obtain ⟨hc', hQ⟩ := hm a c' ha
  exact hf a c' hc' hQ b c'' hb

theorem YieldsAt.imp {m : ParseM α} {Q' : α → Prop} (hm : YieldsAt c Q m) (h : ∀ a, Q a → Q' a) :
    YieldsAt c Q' m :=
  fun a c' ha => ⟨(hm a c' ha).1, h a (hm a c' ha).2⟩

theorem yieldsAt_throw {fault : Fault} : YieldsAt c Q (throw fault : ParseM α) := by
  intro a c' h
  cases h

theorem yieldsAt_current_bind {f : Token → ParseM β} (h : YieldsAt c P (f c.token)) :
    YieldsAt c P (current >>= f) := h

theorem yieldsAt_remaining_bind {f : Nat → ParseM β} (h : YieldsAt c P (f c.remaining)) :
    YieldsAt c P (remaining >>= f) := h

theorem yieldsAt_get_bind {f : Cursor → ParseM β} (h : YieldsAt c P (f c)) : YieldsAt c P (get >>= f) := h

theorem yieldsAt_set_bind {c₁ : Cursor} {f : Unit → ParseM β} (h : YieldsAt c₁ P (f ())) :
    YieldsAt c P (set c₁ >>= f) := h

include hc

theorem yieldsAt_pure {a : α} (h : Q a) : YieldsAt c Q (pure a : ParseM α) := by
  intro b c' hb
  cases hb
  exact ⟨hc, h⟩

theorem yieldsAt_advance_bind {f : Unit → ParseM β} (hf : ∀ c', c'.Regular → YieldsAt c' P (f ())) :
    YieldsAt c P (advance >>= f) := by
  intro b c'' h
  obtain ⟨u, c', hu, hb⟩ := run_bind_eq_ok.mp h
  exact hf c' (keeps_advance steady_regular c u c' hc hu) b c'' hb

theorem yieldsAt_expect_bind {text context : String} {f : Unit → ParseM β}
    (hf : ∀ c', c'.Regular → YieldsAt c' P (f ())) : YieldsAt c P (expect text context >>= f) := by
  intro b c'' h
  obtain ⟨u, c', hu, hb⟩ := run_bind_eq_ok.mp h
  exact hf c' (keeps_expect steady_regular text context c u c' hc hu) b c'' hb

theorem yieldsAt_literal {e : Expr} {P : Expr → Prop} (h : P e) : YieldsAt c P (literal e) :=
  yieldsAt_advance_bind hc fun _ hc' => yieldsAt_pure hc' h

end YieldsAt

theorem YieldsAt.map {c : Cursor} {P : β → Prop} {Q : α → Prop} {m : ParseM α} {f : α → β}
    (hm : YieldsAt c Q m) (hf : ∀ a, Q a → P (f a)) : YieldsAt c P (f <$> m) := by
  rw [map_eq_pure_bind]
  exact hm.bind fun a c' hc' ha => yieldsAt_pure hc' (hf a ha)

/-! ## Rules -/

/-- Does the expression start with a number that has no sign? -/
def startsWithNumber : Expr → Bool
  | ⟨.constant (.number text), _, _⟩ => text.toList.head?.any Char.isDigit
  | ⟨.member _ _ _, _, target :: _⟩ => startsWithNumber target
  | ⟨.element _ _, _, target :: _⟩ => startsWithNumber target
  | ⟨.call _ _, _, target :: _⟩ => startsWithNumber target
  | _ => false

/-- A name in an expression can mean the type. -/
def Setting.Names (s : Setting) (t : TypeRef) : Prop :=
  s.registry.Denotes t ∨
    ∃ expected, s.expected = some expected ∧ s.registry.isEnum expected ∧ t = expected.withNullable false

/-- The expressions that can be read. Static members and methods stand on types and the others on values; a
static one that is found on a value stands on the type that declares it. -/
inductive Reading (s : Setting) : Expr → Prop where
  | root : Reading s s.root
  | null : Reading s .null
  | bool (value : Bool) : Reading s (.constant (.bool value) .boolean)
  | number {text : String} (h : IsNumber text) : Reading s (.constant (.number text) (numberType text))
  | negative {text : String} (h : IsNumber text) :
    Reading s (.constant (.number ("-" ++ text)) (numberType text))
  | text (value : String) : Reading s (.constant (.string value) .string)
  | type {t : TypeRef} (h : s.Names t) : Reading s (.typeRef t)
  | member {target : Expr} {m : Member} (marker : Option Marker) (nullSafe : Bool) (htarget : Reading s target)
    (hname : IsIdentifier m.name) (h : s.registry.member? target.type m.name = some m)
    (hstatic : m.isStatic = target.isTypeRef) : Reading s (.member target m marker nullSafe)
  | static {m : Member} (htype : Reading s (.typeRef m.declaringType)) (hname : IsIdentifier m.name)
    (h : s.registry.member? s.root.type m.name = some m) (hstatic : m.isStatic = true) :
    Reading s (.member (.typeRef m.declaringType) m none false)
  | element {target : Expr} {indexer : Member} {args : List Expr} (marker : Option Marker)
    (htarget : Reading s target) (hargs : ∀ a ∈ args, Reading s a)
    (h : s.registry.indexer? target.type = some indexer) (hcount : args.length = indexer.parameters.length)
    (hfits : s.registry.fits indexer.parameters (args.map (·.type))) :
    Reading s (.element target indexer args marker)
  | call {target : Expr} {m : Member} {args : List Expr} (nullSafe : Bool) (htarget : Reading s target)
    (hargs : ∀ a ∈ args, Reading s a) (hname : IsIdentifier m.name)
    (h : s.registry.method? target.type m.name (args.map (·.type)) = some m)
    (hstatic : m.isStatic = target.isTypeRef) : Reading s (.call target m args nullSafe)
  | staticCall {target : Expr} {m : Member} {args : List Expr} (nullSafe : Bool) (htarget : Reading s target)
    (htype : Reading s (.typeRef m.declaringType)) (hargs : ∀ a ∈ args, Reading s a) (hname : IsIdentifier m.name)
    (h : s.registry.method? target.type m.name (args.map (·.type)) = some m) (hstatic : m.isStatic = true) :
    Reading s (.call (.typeRef m.declaringType) m args nullSafe)
  | cast {e : Expr} {t : TypeRef} (he : Reading s e) (h : s.registry.Denotes t) : Reading s (.cast e t)
  | create {t : TypeRef} {args : List Expr} (h : s.registry.Denotes t) (hargs : ∀ a ∈ args, Reading s a) :
    Reading s (.create t args)
  | typeOf {t : TypeRef} (h : s.registry.Denotes t) : Reading s (.typeOf t)
  | default {t : TypeRef} (h : s.registry.Denotes t) : Reading s (.defaultOf t)
  | paren {e : Expr} (he : Reading s e) : Reading s (.paren e)
  | not {e : Expr} (he : Reading s e) (h : e.type.is WellKnown.boolean) : Reading s (.unary .not e)
  | negate {e : Expr} (he : Reading s e) (h : e.type.isNumeric) (hnumber : startsWithNumber e = false) :
    Reading s (.unary .negate e)
  | binary {op : BinaryOp} {left right : Expr} {type : TypeRef} (hleft : Reading s left) (hright : Reading s right)
    (h : op.resultType? s.registry left.type right.type = some type) : Reading s (.binary op left right type)
  | conditional {test ifTrue ifFalse : Expr} {type : TypeRef} (htest : Reading s test)
    (htrue : Reading s ifTrue) (hfalse : Reading s ifFalse) (hbool : test.type.is WellKnown.boolean)
    (h : conditionalType? s.registry ifTrue.type ifFalse.type = some type) :
    Reading s (.conditional test ifTrue ifFalse type)
  | coalesce {left right : Expr} {type : TypeRef} (hleft : Reading s left) (hright : Reading s right)
    (h : coalesceType? s.registry left.type right.type = some type) : Reading s (.coalesce left right type)

variable {s : Setting}

theorem Reading.declaringType {d : TypeDef} (hd : d ∈ s.registry.types) : Reading s (.typeRef d.ref) :=
  .type (Or.inl (Or.inl ⟨d, hd, rfl⟩))

/-! ## Type names -/

theorem yieldsAt_resolveType {c : Cursor} (hc : c.Regular) {name : String} (hname : ']' ∉ name.toList) :
    YieldsAt c (∀ t ∈ ·, s.registry.Denotes t) (resolveType s name) := by
  unfold resolveType
  split
  · exact yieldsAt_pure hc (by simp)
  · rename_i found hfound
    intro t c' h
    cases h
    exact ⟨hc, by simpa using Registry.denotes_of_findType? hname hfound⟩

theorem yieldsAt_settle {c start : Cursor} (hstart : start.Regular) {found : Option (TypeRef × Cursor)}
    (hfound : ∀ p ∈ found, p.2.Regular ∧ s.registry.Denotes p.1) :
    YieldsAt c (∀ t ∈ ·, s.registry.Denotes t) (settle start found) := by
  cases found with
  | none => exact yieldsAt_set_bind (yieldsAt_pure hstart (by simp))
  | some p => exact yieldsAt_set_bind (yieldsAt_pure (hfound p rfl).1 (by simpa using (hfound p rfl).2))

theorem yieldsAt_dottedTypeName {c start : Cursor} (hc : c.Regular) (hstart : start.Regular) (bound : Nat)
    {name : String} (hname : ']' ∉ name.toList) {found : Option (TypeRef × Cursor)}
    (hfound : ∀ p ∈ found, p.2.Regular ∧ s.registry.Denotes p.1) :
    YieldsAt c (∀ t ∈ ·, s.registry.Denotes t) (dottedTypeName s start bound name found) := by
  induction bound generalizing c name found with
  | zero => exact yieldsAt_settle hstart hfound
  | succ bound ih =>
    unfold dottedTypeName
    apply yieldsAt_current_bind
    split
    · exact yieldsAt_settle hstart hfound
    · refine yieldsAt_advance_bind hc fun c₁ hc₁ => yieldsAt_current_bind ?_
      split
      · exact yieldsAt_settle hstart hfound
      · rename_i hkind
        have hpart := (hc₁.1.ident (by simpa using hkind)).not_mem (c := ']') (by decide)
        have hname' : ']' ∉ (name ++ "." ++ c₁.token.text).toList := by simp [hname, hpart]
        refine yieldsAt_advance_bind hc₁ fun c₂ hc₂ => ?_
        refine (yieldsAt_resolveType hc₂ hname').bind fun resolved c₃ hc₃ hresolved => ?_
        split
        · apply yieldsAt_get_bind
          exact ih hc₃ hname' (by simpa using ⟨hc₃, hresolved _ rfl⟩)
        · exact ih hc₃ hname' hfound

theorem yieldsAt_labelledTypeName {c start : Cursor} (hc : c.Regular) (hstart : start.Regular) {label : String}
    (hlabel : ']' ∉ label.toList) : YieldsAt c (∀ t ∈ ·, s.registry.Denotes t) (labelledTypeName s start label) := by
  unfold labelledTypeName
  apply yieldsAt_current_bind
  split
  · exact yieldsAt_settle hstart (by simp)
  · rename_i hkind
    have hpart := (hc.1.ident (by simpa using hkind)).not_mem (c := ']') (by decide)
    refine yieldsAt_advance_bind hc fun c₁ hc₁ => ?_
    refine (yieldsAt_resolveType hc₁ (by simp [hlabel, hpart])).bind fun resolved c₂ hc₂ hresolved => ?_
    split
    · exact yieldsAt_pure hc₂ (by simpa using hresolved _ rfl)
    · exact yieldsAt_settle hstart (by simp)

theorem yieldsAt_typeName? {c : Cursor} (hc : c.Regular) :
    YieldsAt c (∀ t ∈ ·, s.registry.Denotes t) (typeName? s) := by
  unfold typeName?
  apply yieldsAt_get_bind
  split
  · exact yieldsAt_pure hc (by simp)
  · rename_i hkind
    have hname := (hc.1.ident (by simpa using hkind)).not_mem (c := ']') (by decide)
    refine yieldsAt_advance_bind hc fun c₁ hc₁ => yieldsAt_current_bind ?_
    split
    · exact yieldsAt_advance_bind hc₁ fun c₂ hc₂ => yieldsAt_labelledTypeName hc₂ hc hname
    · refine (yieldsAt_resolveType hc₁ hname).bind fun resolved c₂ hc₂ hresolved => ?_
      split
      · apply yieldsAt_remaining_bind
        apply yieldsAt_get_bind
        exact yieldsAt_dottedTypeName hc₂ hc _ hname (by simpa using ⟨hc₂, hresolved _ rfl⟩)
      · exact yieldsAt_remaining_bind (yieldsAt_dottedTypeName hc₂ hc _ hname (by simp))

theorem yieldsAt_typeName {c : Cursor} (hc : c.Regular) : YieldsAt c s.registry.Denotes (typeName s) := by
  unfold typeName
  apply yieldsAt_current_bind
  refine (yieldsAt_typeName? hc).bind fun found c₁ hc₁ hfound => ?_
  split
  · exact yieldsAt_pure hc₁ (hfound _ rfl)
  · exact yieldsAt_throw

theorem yieldsAt_typeOperand {c : Cursor} (hc : c.Regular) (keyword : String) :
    YieldsAt c s.registry.Denotes (typeOperand s keyword) := by
  unfold typeOperand
  refine yieldsAt_expect_bind hc fun c₁ hc₁ => ?_
  refine (yieldsAt_typeName hc₁).bind fun type c₂ hc₂ htype => ?_
  exact yieldsAt_expect_bind hc₂ fun c₃ hc₃ => yieldsAt_pure hc₃ htype

theorem yieldsAt_castType? {c : Cursor} (hc : c.Regular) :
    YieldsAt c (∀ t ∈ ·, s.registry.Denotes t) (castType? s) := by
  unfold castType?
  apply yieldsAt_get_bind
  refine yieldsAt_advance_bind hc fun c₁ hc₁ => ?_
  refine (yieldsAt_typeName? hc₁).bind fun found c₂ hc₂ hfound => ?_
  split
  · exact yieldsAt_settle hc (by simp)
  · apply yieldsAt_current_bind
    split
    · exact yieldsAt_settle hc (by simp)
    · refine yieldsAt_advance_bind hc₂ fun c₃ hc₃ => yieldsAt_current_bind ?_
      split
      · exact yieldsAt_pure hc₃ hfound
      · exact yieldsAt_settle hc (by simp)

/-! ## Accesses -/

/-- The expression can be read, and it starts with a number only where the token is one. -/
def ReadsAt (s : Setting) (token : Token) (e : Expr) : Prop :=
  Reading s e ∧ (token.kind ≠ .number → startsWithNumber e = false)

structure Nested.Reads (s : Setting) (nested : Nested) : Prop where
  expression {c : Cursor} (hc : c.Regular) : YieldsAt c (Reading s) nested.expression
  coalesced {c : Cursor} (hc : c.Regular) : YieldsAt c (Reading s) nested.coalesced
  operand {c : Cursor} (hc : c.Regular) : YieldsAt c (ReadsAt s c.token) nested.operand

/-- The expression can be read, and it starts with a number only if the other one does. -/
def Prolongs (s : Setting) (target e : Expr) : Prop :=
  Reading s e ∧ (startsWithNumber target = false → startsWithNumber e = false)

variable {nested : Nested} (hn : nested.Reads s)
include hn

theorem yieldsAt_moreArguments {c : Cursor} (hc : c.Regular) (bound : Nat) :
    YieldsAt c (∀ e ∈ ·, Reading s e) (moreArguments nested bound) := by
  induction bound generalizing c with
  | zero => exact yieldsAt_pure hc (by simp)
  | succ bound ih =>
    unfold moreArguments
    apply yieldsAt_current_bind
    split
    · refine yieldsAt_advance_bind hc fun c₁ hc₁ => (hn.expression hc₁).bind fun e c₂ hc₂ he => ?_
      refine (ih hc₂).bind fun es c₃ hc₃ hes => ?_
      exact yieldsAt_pure hc₃ (List.forall_mem_cons.mpr ⟨he, hes⟩)
    · exact yieldsAt_pure hc (by simp)

theorem yieldsAt_arguments {c : Cursor} (hc : c.Regular) (close : String) :
    YieldsAt c (∀ e ∈ ·, Reading s e) (arguments nested close) := by
  unfold arguments
  apply yieldsAt_current_bind
  split
  · exact yieldsAt_expect_bind hc fun c₁ hc₁ => yieldsAt_pure hc₁ (by simp)
  · refine (hn.expression hc).bind fun e c₁ hc₁ he => yieldsAt_remaining_bind ?_
    refine (yieldsAt_moreArguments hn hc₁ _).bind fun es c₂ hc₂ hes => ?_
    exact yieldsAt_expect_bind hc₂ fun c₃ hc₃ => yieldsAt_pure hc₃ (List.forall_mem_cons.mpr ⟨he, hes⟩)

section Target

variable {target : Expr} (ht : Reading s target) {c : Cursor} (hc : c.Regular)
include ht hc

theorem yieldsAt_elementAccess (marker : Option Marker) :
    YieldsAt c (Prolongs s target) (elementAccess s nested target marker) := by
  unfold elementAccess
  apply yieldsAt_current_bind
  refine yieldsAt_expect_bind hc fun c₁ hc₁ => ?_
  refine (yieldsAt_arguments hn hc₁ "]").bind fun args c₂ hc₂ hargs => ?_
  split
  · exact yieldsAt_throw
  · rename_i indexer hindexer
    split
    · rename_i haccepted
      obtain ⟨hcount, hfits⟩ := Bool.and_eq_true_iff.mp haccepted
      exact yieldsAt_pure hc₂ ⟨.element marker ht hargs hindexer (by simpa using hcount) hfits, id⟩
    · exact yieldsAt_throw

theorem yieldsAt_callAccess {name : Token} (hname : IsIdentifier name.text) (nullSafe : Bool) :
    YieldsAt c (Prolongs s target) (callAccess s nested target name nullSafe) := by
  unfold callAccess
  refine yieldsAt_expect_bind hc fun c₁ hc₁ => ?_
  refine (yieldsAt_arguments hn hc₁ ")").bind fun args c₂ hc₂ hargs => ?_
  split
  · rename_i method hcallee
    obtain ⟨hmethod, haccessible⟩ := Option.filter_eq_some_iff.mp hcallee
    obtain ⟨d, hd, hdeclaring⟩ := Registry.exists_declaring_of_method? hmethod
    have hmethodName := Registry.method?_name hmethod
    rw [← hmethodName] at hmethod hname
    refine yieldsAt_pure hc₂ ?_
    split
    · rename_i hstatic
      refine ⟨.staticCall nullSafe ht ?_ hargs hname hmethod (Bool.and_eq_true_iff.mp hstatic).1, fun _ => rfl⟩
      rw [hdeclaring]
      exact .declaringType hd
    · rename_i hvalue
      have hstatic : method.isStatic = target.isTypeRef := by
        cases hm : method.isStatic <;> simp_all
      exact ⟨.call nullSafe ht hargs hname hmethod hstatic, id⟩
  · split
    · exact yieldsAt_throw
    · exact yieldsAt_throw

omit hn in
theorem yieldsAt_memberAccess {name : Token} (hname : IsIdentifier name.text) (marker : Option Marker)
    (nullSafe : Bool) : YieldsAt c (Prolongs s target) (memberAccess s target name marker nullSafe) := by
  unfold memberAccess
  split
  · rename_i m hm
    obtain ⟨hm, hstatic⟩ := Option.filter_eq_some_iff.mp hm
    have hmemberName := Registry.member?_name hm
    rw [← hmemberName] at hm hname
    exact yieldsAt_pure hc ⟨.member marker nullSafe ht hname hm (by simpa using hstatic), id⟩
  · exact yieldsAt_throw

theorem yieldsAt_access? : YieldsAt c (∀ e ∈ ·, Prolongs s target e) (access? s nested target) := by
  have hsome : ∀ e : Expr, Prolongs s target e → ∀ e' ∈ some e, Prolongs s target e' := by simp
  unfold access?
  apply yieldsAt_current_bind
  split
  · exact (yieldsAt_elementAccess hn ht hc none).map hsome
  · split
    · exact yieldsAt_pure hc (by simp)
    · rename_i marker nullSafe _
      refine yieldsAt_advance_bind hc fun c₁ hc₁ => yieldsAt_current_bind ?_
      split
      · exact (yieldsAt_elementAccess hn ht hc₁ marker).map hsome
      · split
        · exact yieldsAt_throw
        · rename_i hkind
          have hname := hc₁.1.ident (by simpa using hkind)
          refine yieldsAt_advance_bind hc₁ fun c₂ hc₂ => yieldsAt_current_bind ?_
          split
          · exact (yieldsAt_callAccess hn ht hc₂ hname nullSafe).map hsome
          · exact (yieldsAt_memberAccess ht hc₂ hname marker nullSafe).map hsome

theorem yieldsAt_accesses (bound : Nat) : YieldsAt c (Prolongs s target) (accesses s nested bound target) := by
  induction bound generalizing target c with
  | zero => exact yieldsAt_pure hc ⟨ht, id⟩
  | succ bound ih =>
    unfold accesses
    refine (yieldsAt_access? hn ht hc).bind fun found c₁ hc₁ hfound => ?_
    split
    · exact yieldsAt_pure hc₁ ⟨ht, id⟩
    · rename_i e
      obtain ⟨he, hnumber⟩ := hfound e rfl
      exact (ih he hc₁).imp fun e' ⟨he', hnumber'⟩ => ⟨he', fun h => hnumber' (hnumber h)⟩

end Target

/-! ## Primary expressions -/

def Leads (s : Setting) (e : Expr) : Prop := Reading s e ∧ startsWithNumber e = false

variable (hroot : startsWithNumber s.root = false)
include hroot

theorem yieldsAt_rootAccess? {c : Cursor} (hc : c.Regular) (hkind : c.token.kind = .ident) :
    YieldsAt c (∀ e ∈ ·, Leads s e) (rootAccess? s nested) := by
  have hname := hc.1.ident hkind
  have hnone : ∀ c₁, YieldsAt c₁ (∀ e ∈ ·, Leads s e) (do set c; return none : ParseM (Option Expr)) :=
    fun c₁ => yieldsAt_set_bind (yieldsAt_pure hc (by simp))
  unfold rootAccess?
  apply yieldsAt_get_bind
  refine yieldsAt_advance_bind hc fun c₁ hc₁ => yieldsAt_current_bind ?_
  split
  · split
    · exact hnone c₁
    · refine (yieldsAt_callAccess hn .root hc₁ hname false).map fun e he => ?_
      simpa using ⟨he.1, he.2 hroot⟩
  · split
    · exact hnone c₁
    · split
      · rename_i m hm
        obtain ⟨hm, haccessible⟩ := Option.filter_eq_some_iff.mp hm
        have hmemberName := Registry.member?_name hm
        rw [← hmemberName] at hm hname
        refine yieldsAt_pure hc₁ fun e he => ?_
        obtain rfl := Option.some.inj he
        split
        · rename_i hstatic
          obtain ⟨d, hd, hown⟩ := Registry.exists_declaring_of_member? hm hstatic
          refine ⟨.static ?_ hname hm hstatic, rfl⟩
          rw [(Registry.ownMember?_eq_some hown).2]
          exact .declaringType (Registry.mem_types_of_mem_lookupDefs hd)
        · rename_i hstatic
          have hvalue : m.isStatic = s.root.isTypeRef := by simp_all
          exact ⟨.member none false .root hname hm hvalue, hroot⟩
      · exact hnone c₁

omit hn hroot in
theorem leads_enumMember? {name : String} (hname : IsIdentifier name) {e : Expr}
    (h : enumMember? s name = some e) : Leads s e := by
  obtain ⟨expected, hexpected, h⟩ := Option.bind_eq_some_iff.mp h
  split at h
  · rename_i henum
    obtain ⟨m, hm, rfl⟩ := Option.map_eq_some_iff.mp h
    obtain ⟨hm, hstatic⟩ := Option.filter_eq_some_iff.mp hm
    have hmemberName := Registry.member?_name hm
    rw [← hmemberName] at hname hm
    exact ⟨.member none false (.type (Or.inr ⟨expected, hexpected, henum, rfl⟩)) hname hm hstatic, rfl⟩
  · cases h

theorem yieldsAt_reference {c : Cursor} (hc : c.Regular) (hkind : c.token.kind = .ident) :
    YieldsAt c (Leads s) (reference s nested) := by
  unfold reference
  apply yieldsAt_current_bind
  refine (yieldsAt_rootAccess? hn hroot hc hkind).bind fun found c₁ hc₁ hfound => ?_
  split
  · exact yieldsAt_pure hc₁ (hfound _ rfl)
  · refine (yieldsAt_typeName? hc₁).bind fun type c₂ hc₂ htype => ?_
    split
    · exact yieldsAt_pure hc₂ ⟨.type (Or.inl (htype _ rfl)), rfl⟩
    · split
      · rename_i e he
        exact yieldsAt_literal hc₂ (leads_enumMember? (hc.1.ident hkind) he)
      · exact yieldsAt_throw

theorem yieldsAt_named {c : Cursor} (hc : c.Regular) (hkind : c.token.kind = .ident) :
    YieldsAt c (Leads s) (named s nested) := by
  unfold named
  apply yieldsAt_current_bind
  split
  · exact yieldsAt_literal hc ⟨.null, rfl⟩
  · exact yieldsAt_literal hc ⟨.bool true, rfl⟩
  · exact yieldsAt_literal hc ⟨.bool false, rfl⟩
  · exact yieldsAt_literal hc ⟨.root, hroot⟩
  · refine yieldsAt_advance_bind hc fun c₁ hc₁ => ?_
    refine (yieldsAt_typeOperand hc₁ "typeof").bind fun type c₂ hc₂ htype => ?_
    exact yieldsAt_pure hc₂ ⟨.typeOf htype, rfl⟩
  · refine yieldsAt_advance_bind hc fun c₁ hc₁ => ?_
    refine (yieldsAt_typeOperand hc₁ "default").bind fun type c₂ hc₂ htype => ?_
    exact yieldsAt_pure hc₂ ⟨.default htype, rfl⟩
  · refine yieldsAt_advance_bind hc fun c₁ hc₁ => ?_
    refine (yieldsAt_typeName hc₁).bind fun type c₂ hc₂ htype => ?_
    refine yieldsAt_expect_bind hc₂ fun c₃ hc₃ => ?_
    refine (yieldsAt_arguments hn hc₃ ")").bind fun args c₄ hc₄ hargs => ?_
    exact yieldsAt_pure hc₄ ⟨.create htype hargs, rfl⟩
  · exact yieldsAt_reference hn hroot hc hkind

omit hroot in
theorem yieldsAt_parenthesized {c : Cursor} (hc : c.Regular) : YieldsAt c (Leads s) (parenthesized s nested) := by
  unfold parenthesized
  refine (yieldsAt_castType? hc).bind fun type c₁ hc₁ htype => ?_
  split
  · refine (hn.operand hc₁).bind fun e c₂ hc₂ he => ?_
    exact yieldsAt_pure hc₂ ⟨.cast he.1 (htype _ rfl), rfl⟩
  · refine yieldsAt_advance_bind hc₁ fun c₂ hc₂ => (hn.expression hc₂).bind fun e c₃ hc₃ he => ?_
    exact yieldsAt_expect_bind hc₃ fun c₄ hc₄ => yieldsAt_pure hc₄ ⟨.paren he, rfl⟩

omit hn hroot in
theorem Leads.readsAt {e : Expr} (h : Leads s e) (token : Token) : ReadsAt s token e := ⟨h.1, fun _ => h.2⟩

theorem yieldsAt_primary {c : Cursor} (hc : c.Regular) :
    YieldsAt c (ReadsAt s c.token) (primary s nested) := by
  unfold primary
  apply yieldsAt_current_bind
  split
  · rename_i hkind
    exact yieldsAt_literal hc ⟨.number (hc.1.number hkind), fun h => absurd hkind h⟩
  · exact yieldsAt_literal hc ⟨.text _, fun _ => rfl⟩
  · rename_i hkind
    exact (yieldsAt_named hn hroot hc hkind).imp fun e he => he.readsAt c.token
  · split
    · exact (yieldsAt_parenthesized hn hc).imp fun e he => he.readsAt c.token
    · exact yieldsAt_throw
  · exact yieldsAt_throw

/-! ## Operators -/

omit hn hroot in
theorem startsWithNumber_negative (text : String) (type : TypeRef) :
    startsWithNumber (.constant (.number ("-" ++ text)) type) = false := by
  simp [startsWithNumber, Expr.constant]

theorem yieldsAt_unary {c : Cursor} (hc : c.Regular) : YieldsAt c (ReadsAt s c.token) (unary s nested) := by
  unfold unary
  apply yieldsAt_current_bind
  split
  · refine yieldsAt_advance_bind hc fun c₁ hc₁ => (hn.operand hc₁).bind fun e c₂ hc₂ he => ?_
    split
    · rename_i hbool
      exact yieldsAt_pure hc₂ ⟨.not he.1 hbool, fun _ => rfl⟩
    · exact yieldsAt_throw
  · split
    · refine yieldsAt_advance_bind hc fun c₁ hc₁ => yieldsAt_current_bind ?_
      split
      · rename_i hkind
        exact yieldsAt_literal hc₁ ⟨.negative (hc₁.1.number hkind), fun _ => startsWithNumber_negative _ _⟩
      · rename_i hkind
        refine (hn.operand hc₁).bind fun e c₂ hc₂ he => ?_
        split
        · rename_i hnumeric
          exact yieldsAt_pure hc₂ ⟨.negate he.1 hnumeric (he.2 hkind), fun _ => rfl⟩
        · exact yieldsAt_throw
    · refine (yieldsAt_primary hn hroot hc).bind fun e c₁ hc₁ he => yieldsAt_remaining_bind ?_
      exact (yieldsAt_accesses hn he.1 hc₁ _).imp fun e' he' => ⟨he'.1, fun h => he'.2 (he.2 h)⟩

omit hn hroot in
theorem yieldsAt_chain {operand : ParseM Expr} (ho : ∀ {c : Cursor}, c.Regular → YieldsAt c (Reading s) operand)
    (ops : List BinaryOp) (bound : Nat) {left : Expr} (hl : Reading s left) {c : Cursor} (hc : c.Regular) :
    YieldsAt c (Reading s) (chain s ops operand bound left) := by
  induction bound generalizing left c with
  | zero => exact yieldsAt_pure hc hl
  | succ bound ih =>
    unfold chain
    apply yieldsAt_current_bind
    split
    · exact yieldsAt_pure hc hl
    · refine yieldsAt_advance_bind hc fun c₁ hc₁ => (ho hc₁).bind fun right c₂ hc₂ hr => ?_
      split
      · rename_i htype
        exact ih (.binary hl hr htype) hc₂
      · exact yieldsAt_throw

omit hn hroot in
theorem yieldsAt_binary {operand : ParseM Expr}
    (ho : ∀ {c : Cursor}, c.Regular → YieldsAt c (Reading s) operand) (levels : List (List BinaryOp))
    {c : Cursor} (hc : c.Regular) : YieldsAt c (Reading s) (binary s operand levels) := by
  induction levels generalizing c with
  | nil => exact ho hc
  | cons ops tighter ih =>
    refine (ih hc).bind fun left c₁ hc₁ hl => yieldsAt_remaining_bind ?_
    exact yieldsAt_chain ih ops _ hl hc₁

theorem yieldsAt_coalesced {c : Cursor} (hc : c.Regular) : YieldsAt c (Reading s) (coalesced s nested) := by
  have hunary {c : Cursor} (hc : c.Regular) : YieldsAt c (Reading s) (unary s nested) :=
    (yieldsAt_unary hn hroot hc).imp fun e he => he.1
  unfold coalesced
  refine (yieldsAt_binary hunary levels hc).bind fun left c₁ hc₁ hl => yieldsAt_current_bind ?_
  split
  · refine yieldsAt_advance_bind hc₁ fun c₂ hc₂ => (hn.coalesced hc₂).bind fun right c₃ hc₃ hr => ?_
    split
    · rename_i htype
      exact yieldsAt_pure hc₃ (.coalesce hl hr htype)
    · exact yieldsAt_throw
  · exact yieldsAt_pure hc₁ hl

theorem yieldsAt_expression {c : Cursor} (hc : c.Regular) : YieldsAt c (Reading s) (expression s nested) := by
  unfold expression
  refine (yieldsAt_coalesced hn hroot hc).bind fun test c₁ hc₁ htest => yieldsAt_current_bind ?_
  split
  · refine yieldsAt_advance_bind hc₁ fun c₂ hc₂ => (hn.expression hc₂).bind fun ifTrue c₃ hc₃ htrue => ?_
    refine yieldsAt_expect_bind hc₃ fun c₄ hc₄ => (hn.expression hc₄).bind fun ifFalse c₅ hc₅ hfalse => ?_
    split
    · rename_i hbool
      split
      · rename_i htype
        exact yieldsAt_pure hc₅ (.conditional htest htrue hfalse hbool htype)
      · exact yieldsAt_throw
    · exact yieldsAt_throw
  · exact yieldsAt_pure hc₁ htest

omit hn in
theorem nestedWithin_reads (depth : Nat) : (nestedWithin s depth).Reads s := by
  induction depth with
  | zero => exact ⟨fun _ => yieldsAt_throw, fun _ => yieldsAt_throw, fun _ => yieldsAt_throw⟩
  | succ depth ih =>
    exact ⟨yieldsAt_expression ih hroot, yieldsAt_coalesced ih hroot, yieldsAt_unary ih hroot⟩

omit hn in
/-- An expression that is read from a text is built up by the rules. -/
theorem parseBytes_reading {text : List Char} {whole : Bool} {parsed : Parsed}
    (h : parseBytes s text whole = .ok parsed) : Reading s parsed.expr := by
  obtain ⟨c, c', hc, hrun, -⟩ := parseBytes_eq_ok.mp h
  have hparse : YieldsAt c (Reading s) (parse s) :=
    yieldsAt_remaining_bind ((nestedWithin_reads hroot _).expression (regular_ofText hc))
  exact (hparse parsed.expr c' hrun).2

omit hn hroot in
theorem startsWithNumber_rootExpr (type : TypeRef) (name : String) (isStatic : Bool) :
    startsWithNumber (rootExpr type name isStatic) = false := by
  cases isStatic <;> rfl

end DataBinding.Grammar
